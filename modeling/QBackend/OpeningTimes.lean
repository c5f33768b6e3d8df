import QBackend.ConcurrentBooks
import QBackend.ExecutionWorker

/-!
# When the current position was opened

`upsert_open_net_position` sets `opened_at` when it inserts an open row and keeps it while the row
stays open. A fill that takes a position through zero to the other side rewrites the open row, so
that the new position carries the opening time of the old one.
-/

namespace QBackend.Execution

open FallibleSteps KeyedTables RunInvariants

/-! ## The opening of a running total -/

/-- The running total of signed fills, with the time at which it last left zero or changed its
sign. -/
def openingStep (s : ℚ × Option Time) (f : ℚ × Time) : ℚ × Option Time :=
  (s.1 + f.1, if s.1 + f.1 = 0 then none else if 0 < s.1 * (s.1 + f.1) then s.2 else some f.2)

def opening (fills : List (ℚ × Time)) : ℚ × Option Time := fills.foldl openingStep (0, none)

theorem opening_append (fills : List (ℚ × Time)) (f : ℚ × Time) :
    opening (fills ++ [f]) = openingStep (opening fills) f := by
  rw [opening, List.foldl_append]
  rfl

theorem opening_of_zero {fills : List (ℚ × Time)} (h : (opening fills).1 = 0) :
    (opening fills).2 = none := by
  rcases List.eq_nil_or_concat fills with rfl | ⟨before, f, rfl⟩
  · rfl
  · rw [List.concat_eq_append, opening_append] at h ⊢
    exact if_pos h

def ExecutionFill.dated (f : ExecutionFill) : ℚ × Time := (f.signed, f.record.filledAt)

/-- The signed fills of a deployment, in the order in which they were booked. -/
def Database.datedFills (db : Database) (d : ℕ) : List (ℚ × Time) :=
  (db.fills.filter (fun f => f.deploymentId = d)).map ExecutionFill.dated

/-! ## One call -/

/-- What a call does to the fills and the positions. -/
theorem applyFillStep_positions (db : Database) (a : FillApplication) :
    (inserts db a = true ∧ (applyFillStep db a).fills = db.fills ++ [a.row] ∧
      ∃ t, transitionPosition (db.holding a.deploymentId) a.fill.side a.fill.quantity
          a.fill.price = .ok t ∧
        (applyFillStep db a).positions = Database.upsertPositions db.positions a.deploymentId
          t.newSide t.newQuantity t.newAverageEntryPrice a.fill.filledAt) ∨
    (inserts db a = false ∧ applyFillStep db a = db) := by
  cases hcall : applyFill db a with
  | error e => exact .inr ⟨by simp [inserts, hcall], by simp [applyFillStep, hcall]⟩
  | ok result =>
    obtain ⟨db', r⟩ := result
    rcases applyFill_ok hcall with ⟨existing, -, hr, rfl⟩ | ⟨-, hr, account, t, order, -, ht, -, -,
      hdb, -, -⟩
    · exact .inr ⟨by simp [inserts, hcall, hr], by simp [applyFillStep, hcall]⟩
    · exact .inl ⟨by simp [inserts, hcall, hr], by simp [applyFillStep, hcall, hdb], t, ht,
        by simp [applyFillStep, hcall, hdb]⟩

theorem datedFills_append {db db' : Database} {a : FillApplication}
    (h : db'.fills = db.fills ++ [a.row]) (d : ℕ) :
    db'.datedFills d = db.datedFills d ++
      if a.deploymentId = d then [(a.signed, a.fill.filledAt)] else [] := by
  have hrow : [a.row].filter (fun f => f.deploymentId = d) =
      if a.deploymentId = d then [a.row] else [] := by
    by_cases hd : a.deploymentId = d
    · simp [FillApplication.row, hd]
    · simp [FillApplication.row, hd]
  rw [Database.datedFills, h, List.filter_append, hrow, List.map_append, Database.datedFills]
  congr 1
  by_cases hd : a.deploymentId = d
  · rw [if_pos hd, if_pos hd]
    rfl
  · rw [if_neg hd, if_neg hd]
    rfl

theorem PositionTransition.flat_iff (t : PositionTransition) :
    (t.newSide = .flat ∨ t.newQuantity = 0) ↔ t.holding.signed = 0 := by
  rw [t.signed_holding]
  cases hside : t.newSide <;> simp [Holding.signed]

/-! ## What the rows say -/

/-- The stored positions follow the fills, and an open row has an opening time. -/
structure Database.Tracked (db : Database) : Prop where
  position : ∀ d, (db.holding d).signed = (opening (db.datedFills d)).1
  rows : ∀ d p, db.getOpenNetPosition d = some p →
    (p.side ≠ .flat ∧ p.quantity ≠ 0) ∧ p.openedAt.isSome

/-- The opening time of the open row. -/
def Database.openedAt (db : Database) (d : ℕ) : Option Time :=
  (db.getOpenNetPosition d).bind ExecutionNetPosition.openedAt

/-- `opened_at` and the entry time of the trade that recovery builds are the time of the fill that
opened the current position. -/
structure Database.OpenedRight (db : Database) (d : ℕ) : Prop where
  openedAt : ∀ p, db.getOpenNetPosition d = some p → p.openedAt = (opening (db.datedFills d)).2
  entryTime : ∀ deployment pointValue trade, deployment.id = d →
    openTradeOf deployment (db.getOpenNetPosition d) pointValue = .ok (some trade) →
      some trade.entryTime = (opening (db.datedFills d)).2

section Rows

variable {db db' : Database} {a : FillApplication} {d : ℕ}

theorem Database.Tracked.open_iff (h : db.Tracked) :
    db.openedAt d = none ↔ (opening (db.datedFills d)).1 = 0 := by
  rw [← h.position d, Database.openedAt, Database.holding]
  cases hopen : db.getOpenNetPosition d with
  | none => simp [Holding.signed, Holding.flat]
  | some p =>
    obtain ⟨⟨hside, hquantity⟩, hopened⟩ := h.rows d p hopen
    obtain ⟨t, ht⟩ := Option.isSome_iff_exists.mp hopened
    have hsigned : p.holding.signed ≠ 0 := by
      simp only [ExecutionNetPosition.holding, Holding.signed]
      cases hs : p.side with
      | long => exact hquantity
      | short => exact neg_ne_zero.mpr hquantity
      | flat => exact absurd hs hside
    simp [ht, hsigned]

theorem openTradeOf_entryTime {deployment : ExecutionDeployment} {p : ExecutionNetPosition}
    {pointValue : ℚ} {trade : Trade}
    (h : openTradeOf deployment (some p) pointValue = .ok (some trade)) :
    p.openedAt = some trade.entryTime := by
  simp only [openTradeOf, executionPositionToTrade] at h
  split at h
  · cases h
  · split at h
    next hentry hopened =>
      cases h
      exact hopened
    · cases h

theorem Database.Tracked.openedRight_iff (h : db.Tracked) :
    db.OpenedRight d ↔ db.openedAt d = (opening (db.datedFills d)).2 := by
  cases hopen : db.getOpenNetPosition d with
  | none =>
    have hnone : db.openedAt d = none := by rw [Database.openedAt, hopen]; rfl
    rw [hnone, opening_of_zero (h.open_iff.mp hnone)]
    refine ⟨fun _ => rfl, fun _ => ⟨?_, ?_⟩⟩
    · intro p hp
      rw [hopen] at hp
      cases hp
    · intro deployment pointValue trade _ htrade
      rw [hopen] at htrade
      cases htrade
  | some p =>
    have hopened : db.openedAt d = p.openedAt := by rw [Database.openedAt, hopen]; rfl
    rw [hopened]
    refine ⟨fun hright => hright.openedAt p hopen, fun heq => ⟨?_, ?_⟩⟩
    · intro p' hp'
      obtain rfl : p = p' := Option.some.inj (hopen.symm.trans hp')
      exact heq
    · intro deployment pointValue trade _ htrade
      rw [hopen] at htrade
      rw [← heq, openTradeOf_entryTime htrade]

end Rows

/-! ## Steps and runs -/

section Steps

variable {db db' : Database} {a : FillApplication} {d : ℕ} {t : PositionTransition}

/-- The tables after a new fill. -/
structure Booking (db db' : Database) (a : FillApplication) (t : PositionTransition) : Prop where
  fills : db'.fills = db.fills ++ [a.row]
  transition : transitionPosition (db.holding a.deploymentId) a.fill.side a.fill.quantity
    a.fill.price = .ok t
  positions : db'.positions = Database.upsertPositions db.positions a.deploymentId t.newSide
    t.newQuantity t.newAverageEntryPrice a.fill.filledAt

theorem Booking.holding (h : Booking db db' a t) :
    db'.holding = Function.update db.holding a.deploymentId t.holding := by
  rw [← holding_upsertOpenNetPosition db a.deploymentId t a.fill.filledAt]
  funext d
  rw [Database.holding_eq, Database.holding_eq, h.positions]
  rfl

theorem Booking.signed (h : Booking db db' a t) :
    t.holding.signed = (db.holding a.deploymentId).signed + a.signed :=
  signed_transitionPosition h.transition

theorem Booking.getOpenNetPosition (h : Booking db db' a t) :
    db'.getOpenNetPosition a.deploymentId = if t.holding.signed = 0 then none else some
      { deploymentId := a.deploymentId, side := t.newSide, quantity := t.newQuantity
        averageEntryPrice := t.newAverageEntryPrice, isOpen := true
        openedAt := (db.openedAt a.deploymentId).or (some a.fill.filledAt) } := by
  rw [Database.getOpenNetPosition, h.positions, openPosition_upsertPositions]
  simp only [t.flat_iff]
  rfl

theorem Booking.getOpenNetPosition_of_ne (h : Booking db db' a t) (hd : d ≠ a.deploymentId) :
    db'.getOpenNetPosition d = db.getOpenNetPosition d := by
  rw [Database.getOpenNetPosition, h.positions, openPosition_upsertPositions_of_ne _ _ _ _ hd]
  rfl

/-- What the fill does to the total that the fills of its deployment add up to. -/
theorem Booking.opening (h : Booking db db' a t) (htracked : db.Tracked) :
    opening (db'.datedFills a.deploymentId) = (t.holding.signed,
      if t.holding.signed = 0 then none
      else if 0 < (db.holding a.deploymentId).signed * t.holding.signed then
        (opening (db.datedFills a.deploymentId)).2
      else some a.fill.filledAt) := by
  rw [datedFills_append h.fills, if_pos rfl, opening_append, openingStep, h.signed,
    htracked.position]

theorem Booking.datedFills_of_ne (h : Booking db db' a t) (hd : d ≠ a.deploymentId) :
    db'.datedFills d = db.datedFills d := by
  rw [datedFills_append h.fills, if_neg (Ne.symm hd), List.append_nil]

theorem Booking.tracked (h : Booking db db' a t) (htracked : db.Tracked) : db'.Tracked := by
  refine ⟨fun d => ?_, fun d p hp => ?_⟩
  · rw [h.holding]
    by_cases hd : d = a.deploymentId
    · subst hd
      rw [Function.update_self, h.opening htracked]
    · rw [Function.update_of_ne hd, h.datedFills_of_ne hd]
      exact htracked.position d
  · by_cases hd : d = a.deploymentId
    · subst hd
      rw [h.getOpenNetPosition] at hp
      split at hp
      · cases hp
      next hopen =>
        cases hp
        refine ⟨not_or.mp (t.flat_iff.not.mpr hopen), ?_⟩
        simp
    · rw [h.getOpenNetPosition_of_ne hd] at hp
      exact htracked.rows d p hp

/-- A fill that takes the position of its deployment through zero. -/
def Flips (db : Database) (a : FillApplication) : Prop :=
  (db.holding a.deploymentId).signed * ((db.holding a.deploymentId).signed + a.signed) < 0

instance (db : Database) (a : FillApplication) : Decidable (Flips db a) :=
  inferInstanceAs (Decidable (_ < _))

/-- A new fill takes no position through zero, unless it is dated at the stored opening. -/
def KeepsSide (db : Database) (a : FillApplication) : Prop :=
  inserts db a = true → Flips db a → db.openedAt a.deploymentId = some a.fill.filledAt

theorem Booking.openedRight_iff (h : Booking db db' a t) (htracked : db.Tracked)
    (hright : ∀ d, db.OpenedRight d) : (∀ d, db'.OpenedRight d) ↔
      (Flips db a → db.openedAt a.deploymentId = some a.fill.filledAt) := by
  have hothers : (∀ d, db'.OpenedRight d) ↔ db'.OpenedRight a.deploymentId := by
    refine ⟨fun hall => hall _, fun hown d => ?_⟩
    by_cases hd : d = a.deploymentId
    · exact hd ▸ hown
    · rw [(h.tracked htracked).openedRight_iff, Database.openedAt, h.getOpenNetPosition_of_ne hd,
        h.datedFills_of_ne hd]
      exact htracked.openedRight_iff.mp (hright d)
  have hold := htracked.openedRight_iff.mp (hright a.deploymentId)
  have hopened : db'.openedAt a.deploymentId = if t.holding.signed = 0 then none
      else (db.openedAt a.deploymentId).or (some a.fill.filledAt) := by
    rw [Database.openedAt, h.getOpenNetPosition]
    split <;> rfl
  rw [hothers, (h.tracked htracked).openedRight_iff, hopened, h.opening htracked, Flips, ← h.signed]
  generalize t.holding.signed = net at *
  by_cases hnet : net = 0
  · simp [hnet]
  · simp only [hnet, if_false]
    rcases lt_trichotomy 0 ((db.holding a.deploymentId).signed * net) with hsame | hzero | hflip
    · -- The position keeps its side, and the row keeps its opening.
      have hheld : db.openedAt a.deploymentId ≠ none := by
        rw [ne_eq, htracked.open_iff, ← htracked.position]
        exact left_ne_zero_of_mul hsame.ne'
      obtain ⟨opened, hsome⟩ := Option.ne_none_iff_exists'.mp hheld
      rw [if_pos hsame, ← hold, hsome]
      simp [not_lt.mpr hsame.le]
    · -- A new position: there was no open row.
      have hflat : db.openedAt a.deploymentId = none := by
        rw [htracked.open_iff, ← htracked.position]
        exact (mul_eq_zero.mp hzero.symm).resolve_right hnet
      rw [hflat, ← hzero]
      simp
    · -- Through zero: the open row keeps the opening of the other side.
      have hheld : db.openedAt a.deploymentId ≠ none := by
        rw [ne_eq, htracked.open_iff, ← htracked.position]
        exact left_ne_zero_of_mul hflip.ne
      obtain ⟨opened, hsome⟩ := Option.ne_none_iff_exists'.mp hheld
      rw [if_neg (not_lt.mpr hflip.le), hsome]
      simp [hflip]

end Steps

theorem Database.Tracked.step {db : Database} (h : db.Tracked) (a : FillApplication) :
    (applyFillStep db a).Tracked := by
  rcases applyFillStep_positions db a with ⟨-, hfills, t, ht, hpositions⟩ | ⟨-, hsame⟩
  · exact Booking.tracked ⟨hfills, ht, hpositions⟩ h
  · rw [hsame]
    exact h

/-- Along a run of fills `opened_at` belongs to the current position exactly when no fill takes the
position through zero at another time than the stored one. -/
theorem opened_at_current_iff (db : Database) (hfills : db.fills = [])
    (hpositions : db.positions = []) (calls : List FillApplication) :
    (∀ n d, (run applyFillStep db (calls.take n)).OpenedRight d) ↔
      Admissible applyFillStep KeepsSide db calls := by
  have hnone : ∀ d, db.getOpenNetPosition d = none := by
    intro d
    rw [Database.getOpenNetPosition, hpositions]
    rfl
  have hdated : ∀ d, db.datedFills d = [] := by
    intro d
    rw [Database.datedFills, hfills]
    rfl
  have hstart : db.Tracked := by
    refine ⟨fun d => ?_, fun d p hp => ?_⟩
    · rw [Database.holding, hnone, hdated]
      rfl
    · rw [hnone] at hp
      cases hp
  have hright : ∀ d, db.OpenedRight d := by
    intro d
    rw [hstart.openedRight_iff, Database.openedAt, hnone, hdated]
    rfl
  refine forall_take_iff (R := fun s => ∀ d, s.OpenedRight d) Database.Tracked
    (fun s a hs => hs.step a) (fun s a hs hR => ?_) hstart hright calls
  rcases applyFillStep_positions s a with ⟨hins, hfills, t, ht, hpositions⟩ | ⟨hins, hsame⟩
  · rw [Booking.openedRight_iff ⟨hfills, ht, hpositions⟩ hs hR, KeepsSide, hins]
    simp
  · rw [hsame, KeepsSide, hins]
    simpa using hR

/-- A funded account and the orders of one deployment. -/
def openingDesk : Database :=
  { accounts := [{ id := 1, initialBalance := 1000, cashBalance := 1000 }]
    orders := [
      { id := 10, deploymentId := 7, decisionId := none, brokerMode := .paper, side := .buy
        quantity := 1, details := { barCloseTime := 60 } },
      { id := 11, deploymentId := 7, decisionId := none, brokerMode := .paper, side := .sell
        quantity := 2, details := { barCloseTime := 120 } }] }

def openingCall (order : ℕ) (side : ExecutionSide) (quantity : ℚ) (filledAt : Time) :
    FillApplication :=
  { paperAccountId := 1, deploymentId := 7, orderId := order, fillId := order
    fill := { brokerMode := .paper, externalFillId := "paper:" ++ toString order, side, quantity
              price := 100, filledAt }
    pointValue := 1, symbol := "WIN", createdAt := filledAt }

/-- The sale closes the position and opens no other. -/
theorem opened_at_current_after_close :
    openingDesk.fills = [] ∧ openingDesk.positions = [] ∧ ∀ n d, (run applyFillStep openingDesk
      ([openingCall 10 .buy 1 60, openingCall 11 .sell 1 120].take n)).OpenedRight d := by
  refine ⟨rfl, rfl, (opened_at_current_iff openingDesk rfl rfl _).mpr ⟨?_, ?_, trivial⟩⟩
  · intro _ hflips
    exact absurd hflips (by decide +kernel)
  · intro _ hflips
    exact absurd hflips (by decide +kernel)

/-- A sale of two contracts out of one long contract leaves a short one that carries the opening
time of the long one. -/
theorem flip_keeps_old_opening :
    ¬ ∀ n d, (run applyFillStep openingDesk
      ([openingCall 10 .buy 1 60, openingCall 11 .sell 2 120].take n)).OpenedRight d := by
  intro h
  have hrow : (run applyFillStep openingDesk
      [openingCall 10 .buy 1 60, openingCall 11 .sell 2 120]).openedAt 7 = some 60 := by
    decide +kernel
  have hopening : (opening ((run applyFillStep openingDesk
      [openingCall 10 .buy 1 60, openingCall 11 .sell 2 120]).datedFills 7)).2 = some 120 := by
    decide +kernel
  obtain ⟨p, hp, hopened⟩ := Option.bind_eq_some_iff.mp hrow
  have hright := (h 2 7).openedAt p hp
  rw [hopened] at hright
  exact absurd (hright.trans hopening) (by decide)

end QBackend.Execution
