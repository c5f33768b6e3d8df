import QBackend.ConcurrentBooks
import QBackend.OrderResolution

/-!
# Books after an operator's resolution

Neither the schema nor the service looks at the values of a fill that an operator asserts. In a
run whose fills all have an external id of their own, a quantity that is not negative, a strictly
positive price and no more decimals than the columns, a resolution changes nothing or ends its order
with the books in balance. A negative quantity is booked as it stands.
-/

namespace QBackend.Execution

open FallibleSteps KeyedTables RunInvariants

/-! ## Numbers of eight decimals -/

/-- A number that a `Numeric(20, 8)` column stores without rounding. -/
def EightDecimals (x : ℚ) : Prop := ∃ n : ℤ, x * 100000000 = n

theorem EightDecimals.int (n : ℤ) : EightDecimals n := ⟨n * 100000000, by push_cast; rfl⟩

theorem EightDecimals.add {x y : ℚ} (hx : EightDecimals x) (hy : EightDecimals y) :
    EightDecimals (x + y) := by
  obtain ⟨m, hm⟩ := hx
  obtain ⟨n, hn⟩ := hy
  refine ⟨m + n, ?_⟩
  rw [add_mul, hm, hn]
  push_cast
  rfl

theorem EightDecimals.neg {x : ℚ} (hx : EightDecimals x) : EightDecimals (-x) := by
  obtain ⟨n, hn⟩ := hx
  refine ⟨-n, ?_⟩
  rw [neg_mul, hn]
  push_cast
  rfl

theorem EightDecimals.sum {l : List ℚ} (h : ∀ x ∈ l, EightDecimals x) : EightDecimals l.sum := by
  induction l with
  | nil => exact .int 0
  | cons x l ih =>
    rw [List.sum_cons]
    exact (h x (by simp)).add (ih fun y hy => h y (List.mem_cons_of_mem x hy))

/-- A fill that the ledger can book and the columns store as it is. -/
structure FillRecord.Bookable (fill : FillRecord) : Prop where
  quantity_nonneg : 0 ≤ fill.quantity
  price_pos : 0 < fill.price
  quantity_stored : EightDecimals fill.quantity
  price_stored : EightDecimals fill.price
  fee_stored : EightDecimals fill.fee

/-! ## Fills of no quantity -/

/-- An order of no quantity leaves the position as it is. -/
theorem transitionPosition_zero {h : Holding} (hw : h.WellFormed) (side : ExecutionSide) (p : ℚ) :
    ∃ t, transitionPosition h side 0 p = .ok t ∧ t.holding = h ∧
      ∀ entry price pv, t.realized entry price pv = 0 := by
  cases hw with
  | flat =>
    refine ⟨_, by rw [transitionPosition, if_pos (.inl rfl)], ?_, fun _ _ _ => rfl⟩
    simp [PositionTransition.holding]
  | @«open» s q e hside hquantity hentry =>
    have hopen : ¬ (s = .flat ∨ q = 0) := not_or.mpr ⟨hside, hquantity.ne'⟩
    unfold transitionPosition
    rw [if_neg hopen]
    by_cases hadd : isSameSideAdd s side = true
    · refine ⟨_, by rw [if_pos hadd, if_neg (by simpa using hquantity.ne')], ?_, fun _ _ _ => rfl⟩
      simp [PositionTransition.holding, hside, entryOr, hentry.ne', hquantity.ne']
    · have hred : isReducing s side = true := by
        cases s <;> cases side <;> simp [isSameSideAdd, isReducing] at hadd hside ⊢
      have hmin : min q 0 = 0 := min_eq_right hquantity.le
      refine ⟨_, by simp [hadd, hred, hmin, hquantity.ne']; rfl, ?_, fun _ _ _ => ?_⟩
      · simp [PositionTransition.holding, hside, entryOr, hentry.ne', hquantity.ne']
      · simp [PositionTransition.realized]

theorem transitionPosition_bookable {h : Holding} (hw : h.WellFormed) (side : ExecutionSide) {q p : ℚ}
    (hq : 0 ≤ q) (hp : 0 < p) :
    ∃ t, transitionPosition h side q p = .ok t ∧ TransitionSpec h side q p t := by
  rcases hq.lt_or_eq with hpos | rfl
  · exact transitionPosition_spec hw side hpos hp
  · obtain ⟨t, ht, hholding, hrealized⟩ := transitionPosition_zero hw side p
    have hzero : signedQuantity side 0 = 0 := by cases side <;> simp [signedQuantity]
    refine ⟨t, ht, hholding ▸ hw, ?_, fun m pv => ?_⟩
    · rw [hholding, hzero, add_zero]
    · rw [hholding, hrealized, hzero]
      ring

/-! ## The books of a database -/

def Database.OnAccount (db : Database) (accountId deploymentId : ℕ) : Prop :=
  (db.accountView deploymentId).map Prod.fst = some accountId

instance (db : Database) (accountId : ℕ) : DecidablePred (db.OnAccount accountId) := fun _ =>
  inferInstanceAs (Decidable (_ = _))

def Database.fillsOn (db : Database) (accountId : ℕ) : List ExecutionFill :=
  db.fills.filter (fun f => db.OnAccount accountId f.deploymentId)

/-- The quantities of the fills are stored as they are, the positions and the cash are what the fills and the ledger entries add up to, and cash and
open profit are the initial cash, less the fees, and what every fill is worth at its mark. -/
structure Database.Conserved (pointValue : ℚ) (initial : ℕ → ℚ) (db : Database) : Prop where
  rows : ∀ d p, db.getOpenNetPosition d = some p → p.side ≠ .flat ∧ p.quantity ≠ 0
  stored : ∀ f ∈ db.fills, EightDecimals f.record.quantity
  wellFormed : ∀ d, (db.holding d).WellFormed
  position : ∀ d, (db.holding d).signed = db.filledTotal d
  cash : ∀ accountId, db.cash accountId = initial accountId + db.entryTotal accountId
  value : ∀ (accountId : ℕ) (mark : ℕ → ℚ) (D : Finset ℕ),
    (∀ f ∈ db.fills, f.deploymentId ∈ D ↔ db.OnAccount accountId f.deploymentId) →
    db.cash accountId + ∑ d ∈ D, (db.holding d).unrealized (mark d) pointValue =
      initial accountId - ((db.fillsOn accountId).map (fun f => f.record.fee)).sum +
        ((db.fillsOn accountId).map (fun f =>
          f.signed * (mark f.deploymentId - f.record.price) * pointValue)).sum

section Conserved

variable {pointValue : ℚ} {initial : ℕ → ℚ} {db db' : Database}

theorem Database.Conserved.unbooked (h : db.Conserved pointValue initial) (hu : Unbooked db db') :
    db'.Conserved pointValue initial := by
  have hholding : db'.holding = db.holding := congrArg Books.holding hu.books
  have hcash : db'.cash = db.cash := congrArg Books.cash hu.books
  have hentries : db'.ledgerEntries = db.ledgerEntries := congrArg Books.journal hu.books
  have hon : db'.OnAccount = db.OnAccount := by
    funext accountId d
    rw [OnAccount, hu.accountView, OnAccount]
  refine ⟨fun d p hp => ?_, hu.fills ▸ h.stored, ?_, fun d => ?_, fun accountId => ?_,
    fun accountId mark D hD => ?_⟩
  · rw [Database.getOpenNetPosition, hu.positions] at hp
    exact h.rows d p hp
  · rw [hholding]
    exact h.wellFormed
  · rw [hholding, filledTotal, hu.fills]
    exact h.position d
  · rw [hcash, entryTotal, hentries]
    exact h.cash accountId
  · have hfills : db'.fillsOn accountId = db.fillsOn accountId := by
      simp only [fillsOn, hu.fills, hon]
    rw [hcash, hholding, hfills]
    refine h.value accountId mark D fun f hf => ?_
    rw [← hon]
    exact hD f (hu.fills ▸ hf)

theorem Database.Conserved.fill {a : FillApplication} (h : db.Conserved pointValue initial)
    (hw : FillWrite pointValue db a db') (ha : a.fill.Bookable) : db'.Conserved pointValue initial := by
  obtain ⟨t, ht, hspec⟩ := transitionPosition_bookable (h.wellFormed a.deploymentId) a.fill.side
    ha.quantity_nonneg ha.price_pos
  have hbooks := hw.books
  simp only [Books.post, Database.books, ht] at hbooks
  have hholding : db'.holding = Function.update db.holding a.deploymentId t.holding :=
    congrArg Books.holding hbooks
  have hcash : db'.cash = Function.update db.cash a.paperAccountId _ := congrArg Books.cash hbooks
  have hentries : db'.ledgerEntries = db.ledgerEntries ++ ledgerEntriesOf a t _ _ :=
    congrArg Books.journal hbooks
  have hview : ∀ accountId, db.OnAccount accountId a.deploymentId ↔ a.paperAccountId = accountId := by
    intro accountId
    rw [OnAccount, hw.account]
    simp
  have hon : db'.OnAccount = db.OnAccount := by
    funext accountId d
    rw [OnAccount, hw.accountView, OnAccount]
  refine ⟨fun d p hp => ?_, fun f hf => ?_, fun d => ?_, fun d => ?_, fun accountId => ?_,
    fun accountId mark D hD => ?_⟩
  · obtain ⟨t', -, hpositions⟩ := hw.positions
    rw [Database.getOpenNetPosition, hpositions] at hp
    by_cases hd : d = a.deploymentId
    · subst hd
      rw [openPosition_upsertPositions] at hp
      split at hp
      · cases hp
      next hheld =>
        cases hp
        exact not_or.mp hheld
    · rw [openPosition_upsertPositions_of_ne _ _ _ _ hd] at hp
      exact h.rows d p hp
  · rw [hw.fills] at hf
    obtain hold | hnew := List.mem_append.mp hf
    · exact h.stored f hold
    · obtain rfl := List.mem_singleton.mp hnew
      exact ha.quantity_stored
  · rw [hholding]
    by_cases hd : d = a.deploymentId
    · subst hd
      simpa using hspec.wellFormed
    · simpa [Function.update_of_ne hd] using h.wellFormed d
  · rw [hholding, filledTotal_append db a d hw.fills, ← h.position d]
    by_cases hd : d = a.deploymentId
    · subst hd
      simpa [FillApplication.signed] using hspec.signed
    · simp [Function.update_of_ne hd, Ne.symm hd]
  · rw [hcash, entryTotal_append db a t _ _ accountId hentries]
    by_cases hid : accountId = a.paperAccountId
    · subst hid
      rw [Function.update_self, if_pos rfl, h.cash]
      ring
    · rw [Function.update_of_ne hid, if_neg (Ne.symm hid), h.cash, add_zero]
  · have hold : ∀ f ∈ db.fills, f.deploymentId ∈ D ↔ db.OnAccount accountId f.deploymentId := by
      intro f hf
      rw [← hon]
      exact hD f (by rw [hw.fills]; exact List.mem_append_left _ hf)
    have hnew : a.deploymentId ∈ D ↔ a.paperAccountId = accountId := by
      rw [← hview, ← hon]
      exact hD a.row (by simp [hw.fills])
    have hbefore := h.value accountId mark D hold
    have hfills : db'.fillsOn accountId = db.fillsOn accountId ++
        if a.paperAccountId = accountId then [a.row] else [] := by
      have hrow : [a.row].filter (fun f => db.OnAccount accountId f.deploymentId) =
          if a.paperAccountId = accountId then [a.row] else [] := by
        have hrowView : db.OnAccount accountId a.row.deploymentId ↔ a.paperAccountId = accountId :=
          hview accountId
        by_cases hid : a.paperAccountId = accountId
        · simp [hrowView, hid]
        · simp [hrowView, hid]
      simp only [fillsOn, hw.fills, hon, List.filter_append, hrow]
    rw [hcash, hholding, hfills]
    by_cases hid : a.paperAccountId = accountId
    · subst hid
      have hstep := hspec.value (mark a.deploymentId) pointValue
      rw [if_pos rfl, Function.update_self,
        sum_unrealized_update _ _ _ _ (hnew.mpr rfl), hw.pointValue]
      simp only [List.map_append, List.map_cons, List.map_nil, List.sum_append, List.sum_cons,
        List.sum_nil, add_zero]
      have hsigned : a.row.signed = signedQuantity a.fill.side a.fill.quantity := rfl
      rw [hsigned]
      simp only [FillApplication.row]
      linear_combination hbefore + hstep
    · have hsame : ∑ d ∈ D, (Function.update db.holding a.deploymentId t.holding d).unrealized
          (mark d) pointValue = ∑ d ∈ D, (db.holding d).unrealized (mark d) pointValue := by
        refine Finset.sum_congr rfl fun d hd => ?_
        rw [Function.update_of_ne]
        rintro rfl
        exact hid (hnew.mp hd)
      rw [if_neg hid, List.append_nil, Function.update_of_ne (Ne.symm hid), hsame]
      exact hbefore

theorem Database.Conserved.write {bound : ℕ} (h : db.Conserved pointValue initial)
    (hw : Write (fun a => a.fill.Bookable) pointValue bound db db') : db'.Conserved pointValue initial := by
  cases hw with
  | frame hf => exact h.unbooked hf.toUnbooked
  | annotate _ _ hu _ _ => exact h.unbooked hu
  | intent _ _ _ hi => exact h.unbooked hi.toUnbooked
  | settle _ hs => exact h.unbooked hs.toUnbooked
  | fill a ha hf => exact h.fill hf ha

theorem Database.Conserved.writes {bound : ℕ} (h : db.Conserved pointValue initial)
    (hw : Writes (fun a => a.fill.Bookable) pointValue bound db db') : db'.Conserved pointValue initial := by
  induction hw with
  | refl => exact h
  | tail _ hstep ih => exact ih.write hstep

end Conserved

/-! ## Runs -/

/-- A world in which nothing was traded yet. -/
structure World.Untraded (w : World) : Prop extends w.Fresh where
  positions : w.session.committed.positions = []
  ledgerEntries : w.session.committed.ledgerEntries = []

/-- The fills of an event have external ids of their own and can be booked. -/
structure BookableFills (cfg : ServiceConfig) (w : World) (e : Event) : Prop where
  fresh : FreshFills cfg w e
  bookable : AllowedFills (fun a => a.fill.Bookable) cfg w e

/-- The invariant of a run. -/
structure BooksInvariant (pointValue : ℚ) (initial : ℕ → ℚ) (w : World) : Prop where
  committed : OrderInvariant w.nextId w.session.committed
  working : OrderInvariant w.nextId w.session.working
  committedBooks : w.session.committed.Conserved pointValue initial
  workingBooks : w.session.working.Conserved pointValue initial

theorem World.Untraded.booksInvariant {w : World} (h : w.Untraded) (pointValue : ℚ) :
    BooksInvariant pointValue w.session.committed.cash w := by
  have hempty := OrderInvariant.empty w.nextId h.orders h.fills
  have hflat : ∀ d, w.session.committed.holding d = .flat := by
    intro d
    rw [Database.holding_eq, h.positions]
    rfl
  have hbooks : w.session.committed.Conserved pointValue w.session.committed.cash := by
    refine ⟨fun d p hp => ?_, fun f hf => ?_, fun d => ?_, fun d => ?_, fun accountId => ?_,
      fun accountId mark D _ => ?_⟩
    · rw [Database.getOpenNetPosition, h.positions] at hp
      cases hp
    · rw [h.fills] at hf
      cases hf
    · rw [hflat]
      exact .flat
    · rw [hflat, Database.filledTotal, h.fills]
      rfl
    · simp [Database.entryTotal, h.ledgerEntries]
    · simp [hflat, Database.fillsOn, h.fills, Holding.unrealized, Holding.flat, unrealizedPnl]
  exact ⟨hempty, h.clean ▸ hempty, hbooks, h.clean ▸ hbooks⟩

theorem BooksInvariant.advance {pointValue : ℚ} {initial : ℕ → ℚ} {w w' : World}
    (h : BooksInvariant pointValue initial w)
    (ha : Advance (fun a => a.fill.Bookable) pointValue w'.nextId w w') :
    BooksInvariant pointValue initial w' := by
  cases ha with
  | stay hs hn _ =>
    refine ⟨?_, ?_, ?_, ?_⟩ <;> rw [hs]
    exacts [h.committed.mono hn, h.working.mono hn, h.committedBooks, h.workingBooks]
  | drop hs hn _ =>
    refine ⟨?_, ?_, ?_, ?_⟩ <;> rw [hs]
    exacts [h.committed.mono hn, h.committed.mono hn, h.committedBooks, h.committedBooks]
  | extend db _ hs hn hw _ _ =>
    refine ⟨?_, ?_, ?_, ?_⟩ <;> rw [hs]
    exacts [h.committed.mono hn, (h.working.mono hn).writes hw, h.committedBooks,
      h.workingBooks.writes hw]
  | commit db _ hs hn hw _ _ =>
    have hworking := (h.working.mono hn).writes hw
    have hbooks := h.workingBooks.writes hw
    refine ⟨?_, ?_, ?_, ?_⟩ <;> rw [hs]
    exacts [hworking, hworking, hbooks, hbooks]
  | recover db hs hn hw _ =>
    have hcommitted := (h.committed.mono hn).writes hw
    have hbooks := h.committedBooks.writes hw
    refine ⟨?_, ?_, ?_, ?_⟩ <;> rw [hs]
    exacts [hcommitted, hcommitted, hbooks, hbooks]

theorem BooksInvariant.run {cfg : ServiceConfig} {initial : ℕ → ℚ} {w : World} {events : List Event}
    (h : BooksInvariant cfg.pointValue initial w)
    (hrun : Admissible (step cfg) (BookableFills cfg) w events) :
    BooksInvariant cfg.pointValue initial (run (step cfg) w events) :=
  invariant_of_admissible (BooksInvariant cfg.pointValue initial) hrun h
    fun _ _ he hs => hs.advance (step_advance hs.working he.fresh he.bookable)

/-! ## The resolution -/

section Resolution

variable {cfg : ServiceConfig} {db db' : Database}

theorem applyFailedResolution_rejects {order : ExecutionOrder} {reconciledBy : String}
    {detail : Option String} {reason : String} {at_ : Time}
    (h : applyFailedResolution db order reconciledBy detail reason at_ = .ok db') :
    ∃ o ∈ db'.orders, o.id = order.id ∧ o.status = .rejected := by
  simp only [applyFailedResolution, bind_eq_ok] at h
  obtain ⟨db₁, h₁, db₂, h₂, h₃⟩ := h
  obtain ⟨o, ho, -, rfl⟩ := transitionExecutionOrder_ok h₁
  obtain ⟨g, rfl, hg⟩ := finalizeOrderReconciliation_ok h₂
  obtain ⟨homem, hoid⟩ := getExecutionOrder_mem ho
  rw [(frame_recordDecisionOutcome h₃).orders, Database.modifyOrder_modifyOrder _ _ (fun _ => by rfl)]
  refine ⟨_, mem_modify.mpr (.inl ⟨o, homem, hoid, rfl⟩), ?_, ?_⟩
  · exact (hg _).2.1.trans hoid
  · exact (hg _).2.2.1

theorem resolveOrder_terminal {orderId : ℕ} {body : OrderResolutionRequest} {fillId : ℕ} {now : Time}
    {outcome : ReconciliationOutcome}
    (h : resolveOrder cfg db orderId body fillId now = .ok (db', outcome))
    (hfresh : FreshResolution db orderId body now) :
    ∃ o ∈ db'.orders, o.id = orderId ∧ o.status.IsTerminal := by
  unfold resolveOrder at h
  split at h
  · cases h
  next order horder =>
    have hid : order.id = orderId := key_of_lookup horder
    split at h
    · cases h
    next deployment hdeployment =>
      have hdid : deployment.id = order.deploymentId := key_of_lookup hdeployment
      simp only [resolveOrderManually, bind_eq_ok] at h
      obtain ⟨-, -, h⟩ := h
      split at h
      · split at h
        · cases h
        next fill hfill =>
          simp only [bind_eq_ok, pure_eq_ok, Prod.mk.injEq] at h
          obtain ⟨db₁, h₁, rfl, rfl⟩ := h
          have hwrite := fillWrite_applyFilledResolution h₁ (hfresh order fill horder hfill)
            (by rw [hdid]; exact hdeployment)
          obtain ⟨o, ho, hoid, hstatus⟩ := hwrite.isFilled
          exact ⟨o, ho, hoid.trans hid, .inl hstatus⟩
      · simp only [bind_eq_ok, pure_eq_ok, Prod.mk.injEq] at h
        obtain ⟨db₁, h₁, rfl, rfl⟩ := h
        obtain ⟨o, ho, hoid, hstatus⟩ := applyFailedResolution_rejects h₁
        exact ⟨o, ho, hoid.trans hid, .inr (.inl hstatus)⟩

end Resolution

theorem Database.Conserved.filledTotal_stored {pointValue : ℚ} {initial : ℕ → ℚ} {db : Database}
    (h : db.Conserved pointValue initial) (d : ℕ) : EightDecimals (db.filledTotal d) := by
  refine .sum fun x hx => ?_
  obtain ⟨f, hf, rfl⟩ := List.mem_map.mp hx
  have hquantity := h.stored f (List.mem_filter.mp hf).1
  unfold ExecutionFill.signed signedQuantity
  split
  · exact hquantity
  · exact hquantity.neg

theorem Database.Conserved.side {pointValue : ℚ} {initial : ℕ → ℚ} {db : Database}
    (h : db.Conserved pointValue initial) {d : ℕ} {p : ExecutionNetPosition}
    (hp : db.getOpenNetPosition d = some p) : 0 < p.quantity ∧ EightDecimals p.quantity ∧
      ((p.side = .long ∧ db.filledTotal d = p.quantity) ∨
        (p.side = .short ∧ db.filledTotal d = -p.quantity)) := by
  have hholding : db.holding d = p.holding := by
    rw [Database.holding, hp]
  have hsigned := h.position d
  have hside := (h.wellFormed d).side_eq
  rw [hholding] at hsigned hside
  rcases hside with ⟨hpos, hs, hq⟩ | ⟨hneg, hs, hq⟩ | ⟨-, hflat⟩
  · have hq' : p.quantity = db.filledTotal d := hq.trans hsigned
    exact ⟨hq' ▸ hsigned ▸ hpos, hq' ▸ h.filledTotal_stored d, .inl ⟨hs, hq'.symm⟩⟩
  · have hq' : p.quantity = -db.filledTotal d := by rw [← hsigned]; exact hq
    refine ⟨?_, hq' ▸ (h.filledTotal_stored d).neg, .inr ⟨hs, by rw [hq', neg_neg]⟩⟩
    rw [hq', ← hsigned]
    exact neg_pos.mpr hneg
  · exact absurd (congrArg Holding.side hflat) (h.rows d p hp).1

theorem Database.Conserved.open_iff {pointValue : ℚ} {initial : ℕ → ℚ} {db : Database}
    (h : db.Conserved pointValue initial) (d : ℕ) :
    (db.getOpenNetPosition d).isSome ↔ db.filledTotal d ≠ 0 := by
  cases hp : db.getOpenNetPosition d with
  | none =>
    have hholding : db.holding d = .flat := by
      rw [Database.holding, hp]
    have hzero : db.filledTotal d = 0 := by
      rw [← h.position d, hholding]
      rfl
    simp [hzero]
  | some p =>
    obtain ⟨hpos, -, ⟨-, htotal⟩ | ⟨-, htotal⟩⟩ := h.side hp
    · simp [htotal, hpos.ne']
    · simp [htotal, hpos.ne']

/-- The order ended once, every position is stored as what its fills add up to, and the ledger
balances. -/
structure Database.Sane (pointValue : ℚ) (initial : ℕ → ℚ) (orderId : ℕ) (db : Database) : Prop where
  ended : ∃ o ∈ db.orders, o.id = orderId ∧ o.status.IsTerminal ∧
    ∀ x ∈ db.orders, x.id = orderId → x = o
  open_iff : ∀ d, (db.getOpenNetPosition d).isSome ↔ db.filledTotal d ≠ 0
  side : ∀ d p, db.getOpenNetPosition d = some p → 0 < p.quantity ∧ EightDecimals p.quantity ∧
    ((p.side = .long ∧ db.filledTotal d = p.quantity) ∨
      (p.side = .short ∧ db.filledTotal d = -p.quantity))
  conserved : db.Conserved pointValue initial

/-- In a run whose fills can be booked, a resolution that can be booked changes nothing or leaves a
sane database. -/
theorem resolution_keeps_books (cfg : ServiceConfig) (w : World) (hw : w.Untraded)
    (events : List Event) (hrun : Admissible (step cfg) (BookableFills cfg) w events) (orderId : ℕ)
    (body : OrderResolutionRequest) (now : Time)
    (hbody : BookableFills cfg (run (step cfg) w events) (.resolve orderId body now)) :
    step cfg (run (step cfg) w events) (.resolve orderId body now) = run (step cfg) w events ∨
    (step cfg (run (step cfg) w events) (.resolve orderId body now)).session.committed.Sane
      cfg.pointValue w.session.committed.cash orderId := by
  have hinv := (hw.booksInvariant cfg.pointValue).run hrun
  have hnext := hinv.advance (step_advance hinv.working hbody.fresh hbody.bookable)
  generalize run (step cfg) w events = w' at hinv hnext hbody ⊢
  by_cases hclean : w'.session.working = w'.session.committed
  · cases hres : resolveOrder cfg w'.session.committed orderId body w'.nextId now with
    | error e =>
      left
      simp only [step, hclean, if_true, hres]
    | ok result =>
      obtain ⟨db, outcome⟩ := result
      right
      have hsession : (step cfg w' (.resolve orderId body now)).session = ⟨db, db⟩ := by
        simp only [step, hclean, if_true, hres]
      have hbooks := hnext.committedBooks
      have horders := hnext.committed.nodup
      rw [hsession] at hbooks horders ⊢
      obtain ⟨o, ho, hoid, hterminal⟩ := resolveOrder_terminal hres hbody.fresh
      refine ⟨⟨o, ho, hoid, hterminal, fun x hx hxid => ?_⟩, hbooks.open_iff,
        fun d p hp => hbooks.side hp, hbooks⟩
      exact eq_of_mem_of_key horders hx ho (hxid.trans hoid.symm)
  · left
    simp only [step, hclean, if_false]

/-! ## A resolution with a negative quantity -/

theorem deskSubmit_bookable {quoted now : Time} {request : MarketOrderRequest} {fill : FillRecord}
    (h : (paperSubmit (deskQuotes quoted) now request {}).fill = some fill) : fill.Bookable := by
  have hpos := (paperSubmit_fill h).2.2.2.2
  unfold paperSubmit at h
  split at h
  · cases h
  · cases h
  next quote _ hquote =>
    cases hquote
    split at h
    · cases h
    next hquantity =>
      cases h
      have hwhole : request.quantity = ⌊request.quantity⌋ := by
        unfold validateQuantity decimalMod at hquantity
        split at hquantity
        · cases hquantity
        · split at hquantity
          · cases hquantity
          · split at hquantity
            · cases hquantity
            next hstep =>
              rw [not_not, div_one, one_mul, sub_eq_zero] at hstep
              exact hstep
      refine ⟨hpos.le, ?_, hwhole ▸ .int _, ?_, ?_⟩
      · cases request.side <;> norm_num [executableFillPrice]
      · cases request.side with
        | buy => exact ⟨10100000000, by norm_num [executableFillPrice]⟩
        | sell => exact ⟨10000000000, by norm_num [executableFillPrice]⟩
      · exact ⟨0, by simp [computeCommission]⟩

/-- An operator confirms the fill of a killed order at the ask. -/
def deskResolution (quantity : Option ℚ) : OrderResolutionRequest :=
  { outcome := .filled, actor := "desk", reason := "broker statement", price := some 101, quantity }

theorem deskWorld_untraded : deskWorld.Untraded := ⟨deskWorld_fresh, rfl, rfl⟩

/-- The order is for one contract, and the operator leaves the quantity out. -/
theorem resolution_keeps_books_absent_quantity :
    (step {} (run (step {}) deskWorld (killedAfterIntent 60000000))
      (.resolve 101 (deskResolution none) 61000000)).session.committed.Sane 1
      deskWorld.session.committed.cash 101 := by
  have hkeys : ∀ n ≤ 4,
      (run (step {}) deskWorld ((killedAfterIntent 60000000).take n)).session.working.recordedKeys =
        [] ∧
      (run (step {}) deskWorld
        ((killedAfterIntent 60000000).take n)).session.committed.recordedKeys = [] := by
    decide +kernel
  have hrun : Admissible (step {}) (BookableFills {}) deskWorld (killedAfterIntent 60000000) := by
    refine ⟨⟨trivial, trivial⟩, ⟨trivial, trivial⟩, ⟨?_, ?_⟩, ⟨trivial, trivial⟩, trivial⟩
    · intro request sub fill _ _ _ _
      show _ ∉ (run (step {}) deskWorld
        ((killedAfterIntent 60000000).take 2)).session.working.recordedKeys
      rw [(hkeys 2 (by decide)).1]
      exact List.not_mem_nil
    · intro a ha
      obtain ⟨request, sub, -, -, hsub, hfill⟩ := ha.answer
      cases hsub
      exact deskSubmit_bookable hfill
  have horder : ∀ order, (run (step {}) deskWorld
      (killedAfterIntent 60000000)).session.committed.getExecutionOrder 101 = some order →
      order.quantity = 1 := by
    have hrow : ((run (step {}) deskWorld
        (killedAfterIntent 60000000)).session.committed.getExecutionOrder 101).map
          ExecutionOrder.quantity = some 1 := by decide +kernel
    intro order horder
    rw [horder] at hrow
    exact Option.some.inj hrow
  have hbody : BookableFills {} (run (step {}) deskWorld (killedAfterIntent 60000000))
      (.resolve 101 (deskResolution none) 61000000) := by
    refine ⟨?_, ?_⟩
    · intro order fill _ _
      show _ ∉ (run (step {}) deskWorld
        ((killedAfterIntent 60000000).take 4)).session.committed.recordedKeys
      rw [(hkeys 4 (by decide)).2]
      exact List.not_mem_nil
    · intro order a hget hfill
      have hfill' := Option.some.inj hfill
      rw [← hfill']
      have hone := horder order hget
      refine ⟨?_, by norm_num, ?_, ⟨10100000000, by norm_num⟩, ⟨0, by simp [deskResolution]⟩⟩
      · exact hone.symm ▸ zero_le_one
      · exact hone.symm ▸ EightDecimals.int 1
  have hchanged : (step {} (run (step {}) deskWorld (killedAfterIntent 60000000))
      (.resolve 101 (deskResolution none) 61000000)).session.committed.fills.length ≠
      (run (step {}) deskWorld (killedAfterIntent 60000000)).session.committed.fills.length := by
    decide +kernel
  rcases resolution_keeps_books {} deskWorld deskWorld_untraded _ hrun 101 (deskResolution none)
    61000000 hbody with hsame | hsane
  · rw [hsame] at hchanged
    exact absurd rfl hchanged
  · exact hsane

/-- The same order resolved as filled for minus one contract: the fill is booked and the position
is open long with a quantity of minus one. -/
theorem negative_resolution_breaks_position :
    deskWorld.Untraded ∧
    ¬ (step {} (run (step {}) deskWorld (killedAfterIntent 60000000))
        (.resolve 101 (deskResolution (some (-1))) 61000000) =
          run (step {}) deskWorld (killedAfterIntent 60000000) ∨
      (step {} (run (step {}) deskWorld (killedAfterIntent 60000000))
        (.resolve 101 (deskResolution (some (-1))) 61000000)).session.committed.Sane 1
        deskWorld.session.committed.cash 101) := by
  refine ⟨deskWorld_untraded, ?_⟩
  rintro (hsame | hsane)
  · have hchanged : (step {} (run (step {}) deskWorld (killedAfterIntent 60000000))
        (.resolve 101 (deskResolution (some (-1))) 61000000)).session.committed.fills.length ≠
        (run (step {}) deskWorld (killedAfterIntent 60000000)).session.committed.fills.length := by
      decide +kernel
    rw [hsame] at hchanged
    exact hchanged rfl
  · have hrow : ((step {} (run (step {}) deskWorld (killedAfterIntent 60000000))
        (.resolve 101 (deskResolution (some (-1))) 61000000)).session.committed.getOpenNetPosition
          7).map ExecutionNetPosition.quantity = some (-1) := by decide +kernel
    obtain ⟨p, hp, hquantity⟩ := Option.map_eq_some_iff.mp hrow
    have hpos := (hsane.side 7 p hp).1
    rw [hquantity] at hpos
    norm_num at hpos

end QBackend.Execution
