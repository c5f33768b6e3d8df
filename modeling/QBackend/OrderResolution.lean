import QBackend.ExecutionRuns

/-!
# No order is stuck unresolved

In every run whose reported fills carry external ids of their own, an order is UNKNOWN exactly
while its reconciliation is pending, and an order reported as filled is filled by one fill of
its own. A reused external id breaks both: `apply_fill` then returns before it touches the
order, and the finalizer closes the reconciliation of an order that is still UNKNOWN.
-/

namespace QBackend.Execution

open RunInvariants

/-- A world in which nothing was executed yet. -/
structure World.Fresh (w : World) : Prop where
  clean : w.session.working = w.session.committed
  orders : w.session.committed.orders = []
  fills : w.session.committed.fills = []
  decisions : w.session.committed.decisions = []
  submissions : w.submissions = []
  reports : w.reports = {}

/-- The orders are settled as their callers were told. -/
structure Resolved (db : Database) (reported : List ℕ) : Prop where
  unknown_iff_pending : ∀ o ∈ db.orders, (o.status = .unknown ↔ o.reconciliationState = .pending)
  filled : ∀ id ∈ reported, ∃ o ∈ db.orders, o.id = id ∧ o.status = .filled ∧ db.fillCount id = 1

/-- The invariant of a run, for the committed tables and for the open transaction. -/
structure ResolutionInvariant (w : World) : Prop where
  committed : OrderInvariant w.nextId w.session.committed
  working : OrderInvariant w.nextId w.session.working
  durable : ∀ id ∈ w.reports.durable,
    w.session.committed.IsFilled id ∧ w.session.working.IsFilled id
  pending : ∀ id ∈ w.reports.pending, w.session.working.IsFilled id

theorem OrderInvariant.empty (bound : ℕ) {db : Database} (ho : db.orders = []) (hf : db.fills = []) :
    OrderInvariant bound db := by
  refine ⟨?_, ?_, ?_, ?_, ?_⟩ <;> simp [ho, hf]

theorem World.Fresh.resolutionInvariant {w : World} (h : w.Fresh) : ResolutionInvariant w := by
  have hempty := OrderInvariant.empty w.nextId h.orders h.fills
  refine ⟨hempty, by rw [h.clean]; exact hempty, ?_, ?_⟩ <;> simp [h.reports]

theorem ResolutionInvariant.advance {allowed : FillApplication → Prop} {pointValue : ℚ}
    {w w' : World} (h : ResolutionInvariant w)
    (ha : Advance allowed pointValue w'.nextId w w') :
    ResolutionInvariant w' := by
  cases ha with
  | stay hs hn hr =>
    refine ⟨?_, ?_, ?_, ?_⟩ <;> rw [hs]
    · exact h.committed.mono hn
    · exact h.working.mono hn
    · rw [hr]; exact h.durable
    · rw [hr]; exact h.pending
  | drop hs hn hr =>
    refine ⟨?_, ?_, ?_, ?_⟩ <;> rw [hs]
    · exact h.committed.mono hn
    · exact h.committed.mono hn
    · rw [hr]
      exact fun id hid => ⟨(h.durable id hid).1, (h.durable id hid).1⟩
    · simp [hr, FillReports.drop]
  | extend db ids hs hn hw hids hr =>
    have hworking := h.working.mono hn
    refine ⟨?_, ?_, ?_, ?_⟩ <;> rw [hs]
    · exact h.committed.mono hn
    · exact hworking.writes hw
    · rw [hr]
      exact fun id hid => ⟨(h.durable id hid).1, hworking.isFilled_writes hw (h.durable id hid).2⟩
    · rw [hr]
      intro id hid
      rcases List.mem_append.mp hid with hid | hid
      · exact hworking.isFilled_writes hw (h.pending id hid)
      · exact hids id hid
  | commit db ids hs hn hw hids hr =>
    have hworking := h.working.mono hn
    refine ⟨?_, ?_, ?_, ?_⟩ <;> rw [hs]
    · exact hworking.writes hw
    · exact hworking.writes hw
    · rw [hr]
      intro id hid
      have hfilled : db.IsFilled id := by
        rcases List.mem_append.mp hid with hid | hid
        · rcases List.mem_append.mp hid with hid | hid
          · exact hworking.isFilled_writes hw (h.durable id hid).2
          · exact hworking.isFilled_writes hw (h.pending id hid)
        · exact hids id hid
      exact ⟨hfilled, hfilled⟩
    · simp [hr]
  | recover db hs hn hw hr =>
    have hcommitted := h.committed.mono hn
    refine ⟨?_, ?_, ?_, ?_⟩ <;> rw [hs]
    · exact hcommitted.writes hw
    · exact hcommitted.writes hw
    · rw [hr]
      intro id hid
      have hfilled := hcommitted.isFilled_writes hw (h.durable id hid).1
      exact ⟨hfilled, hfilled⟩
    · simp [hr, FillReports.drop]

theorem allowedFills_true (cfg : ServiceConfig) (w : World) (e : Event) :
    AllowedFills (fun _ => True) cfg w e := by
  cases e <;> simp [AllowedFills]

theorem OrderInvariant.resolved {bound : ℕ} {db : Database} (h : OrderInvariant bound db)
    {reported : List ℕ} (hr : ∀ id ∈ reported, db.IsFilled id) : Resolved db reported := by
  refine ⟨h.consistent, fun id hid => ?_⟩
  obtain ⟨o, ho, hoid, hs⟩ := hr id hid
  have hcount := h.fillCount o ho
  rw [hs, hoid] at hcount
  exact ⟨o, ho, hoid, hs, by simpa using hcount⟩

/-- In every run whose reported fills are fresh, every order is resolved as reported, in the
committed tables and in the open transaction. -/
theorem orders_resolved (cfg : ServiceConfig) (w : World) (hw : w.Fresh) (events : List Event)
    (hfresh : Admissible (step cfg) (FreshFills cfg) w events) :
    Resolved (run (step cfg) w events).session.committed
      (run (step cfg) w events).reports.durable ∧
    Resolved (run (step cfg) w events).session.working
      ((run (step cfg) w events).reports.durable ++
        (run (step cfg) w events).reports.pending) := by
  have hinv : ResolutionInvariant (run (step cfg) w events) := by
    refine invariant_of_admissible ResolutionInvariant hfresh hw.resolutionInvariant ?_
    intro s e he hs
    exact hs.advance (step_advance hs.working he (allowedFills_true cfg s e))
  refine ⟨hinv.committed.resolved (fun id hid => (hinv.durable id hid).1),
    hinv.working.resolved (fun id hid => ?_)⟩
  rcases List.mem_append.mp hid with hid | hid
  · exact (hinv.durable id hid).2
  · exact hinv.pending id hid

/-! ## A reused external fill id -/

/-- One running deployment on a funded account. -/
def deskWorld : World :=
  let db : Database :=
    { accounts := [{ id := 1, initialBalance := 100000, cashBalance := 100000 }]
      deployments := [{ id := 7, paperAccountId := 1, lifecycle := .running, symbol := "WIN"
                        timeframe := "M1" }] }
  { session := ⟨db, db⟩, nextId := 100 }

def deskQuotes (now : Time) (symbol : String) : Option ExecutableQuote :=
  some { symbol, bid := 100, ask := 101, timestamp := now }

/-- A bar with a signal to buy one contract, processed at its close. -/
def buyCall (barCloseTime : Time) : BarCall :=
  { deploymentId := 7, leaseToken := "token"
    result := { barCloseTime, signalAction := .buy, requestedQuantity := some 1 } }

def deskEnvironment (now : Time) (crash : Checkpoint → Option Interruption) : BarEnvironment :=
  { broker := paperBroker (deskQuotes now) now, quotes := deskQuotes now, now, crash }

/-- The process dies right after an intent commit, and the next one marks the order. -/
def killedAfterIntent (now : Time) : List Event :=
  [.acquireLease 7 "token" 60000000 now,
    .commit,
    .processBar (buyCall now)
      (deskEnvironment now (fun c => if c = .afterIntentCommit then some .kill else none)),
    .startup (fun _ => none) now]

/-- An operator resolves two killed orders as filled and gives the same external fill id. -/
def reusedFillIdRun : List Event :=
  killedAfterIntent 60000000 ++
  [.resolve 101 { outcome := .filled, actor := "desk", reason := "broker statement"
                  price := some 101, externalFillId := some "T-1" } 61000000] ++
  killedAfterIntent 120000000 ++
  [.resolve 105 { outcome := .filled, actor := "desk", reason := "broker statement"
                  price := some 102, externalFillId := some "T-1" } 121000000]

theorem deskWorld_fresh : deskWorld.Fresh := ⟨rfl, rfl, rfl, rfl, rfl, rfl⟩

/-- The second order stays UNKNOWN, is RECONCILED, owns no fill and was reported as filled. -/
theorem reused_fill_id_leaves_order_unresolved :
    deskWorld.Fresh ∧
    ¬ Resolved (run (step {}) deskWorld reusedFillIdRun).session.committed
      (run (step {}) deskWorld reusedFillIdRun).reports.durable := by
  refine ⟨deskWorld_fresh, fun h => ?_⟩
  have hstuck : ¬ ∀ o ∈ (run (step {}) deskWorld reusedFillIdRun).session.committed.orders,
      (o.status = .unknown ↔ o.reconciliationState = .pending) := by decide +kernel
  exact hstuck h.unknown_iff_pending

/-- The first half of that run, in which the operator's id is new. -/
theorem orders_resolved_first_resolution :
    Resolved (run (step {}) deskWorld (reusedFillIdRun.take 5)).session.committed [101] := by
  have hbefore : ∀ n ≤ 4,
      (run (step {}) deskWorld (reusedFillIdRun.take n)).session.working.recordedKeys = [] ∧
      (run (step {}) deskWorld (reusedFillIdRun.take n)).session.committed.recordedKeys = [] := by
    decide +kernel
  have hadmissible : Admissible (step {}) (FreshFills {}) deskWorld (reusedFillIdRun.take 5) := by
    refine ⟨trivial, trivial, ?_, trivial, ?_, trivial⟩
    · intro request sub fill _ _ _ _
      show _ ∉ (run (step {}) deskWorld (reusedFillIdRun.take 2)).session.working.recordedKeys
      rw [(hbefore 2 (by decide)).1]
      exact List.not_mem_nil
    · intro order fill _ _
      show _ ∉ (run (step {}) deskWorld (reusedFillIdRun.take 4)).session.committed.recordedKeys
      rw [(hbefore 4 (by decide)).2]
      exact List.not_mem_nil
  have hreports : (run (step {}) deskWorld (reusedFillIdRun.take 5)).reports.durable = [101] := by
    decide +kernel
  have hmain := (orders_resolved {} deskWorld deskWorld_fresh _ hadmissible).1
  rwa [hreports] at hmain

end QBackend.Execution
