import QBackend.DeploymentRows
import QBackend.OrderResolution
import QBackend.PositionSizing

/-!
# The sizer's cap on the live path

The evaluator sizes every entry by itself, at its initial capital, and the risk gate lets a same-side
order pass, so nothing on the live path cuts an entry to what the cap leaves. The net position stays
within the cap in the runs that do not add to an open position while the account's cash carries the
cap of the initial capital. Repeated entries of one side add up to all that was asked for, which is
the position of the back-test just when it is within the cap.
-/

namespace QBackend.Execution

open KeyedTables FallibleSteps RunInvariants

/-! ## One fill -/

/-- A fill of this side opens, reduces or turns the position. -/
def NotAdding (h : Holding) (side : ExecutionSide) : Prop := isSameSideAdd h.side side = false

/-- The signed quantities add up, whatever the price. -/
theorem transitionPosition_signed {h : Holding} {side : ExecutionSide} {q p : ℚ}
    {t : PositionTransition} (hh : 0 ≤ h.quantity) (hq : 0 < q)
    (ht : transitionPosition h side q p = .ok t) :
    t.holding.signed = h.signed + signedQuantity side q ∧ 0 ≤ t.holding.quantity := by
  obtain ⟨hside, hquantity, entry⟩ := h
  simp only at hh
  unfold transitionPosition at ht
  dsimp only at ht
  split at ht
  next hflat =>
    cases ht
    have hzero : Holding.signed ⟨hside, hquantity, entry⟩ = 0 := by
      rcases hflat with rfl | rfl
      · rfl
      · cases hside <;> simp [Holding.signed]
    rw [hzero]
    cases side <;>
      simp [PositionTransition.holding, openingSideOf, hq.ne', Holding.signed, signedQuantity, hq.le]
  next hopen =>
    obtain ⟨hne, hnz⟩ := not_or.mp hopen
    have hpos : 0 < hquantity := lt_of_le_of_ne hh (Ne.symm hnz)
    split at ht
    next hadd =>
      split at ht
      · cases ht
      next hsum =>
        cases ht
        cases hside <;> cases side <;> simp [isSameSideAdd] at hadd <;>
          simp [PositionTransition.holding, hsum, Holding.signed, signedQuantity] <;>
          first | linarith | (constructor <;> linarith)
    · split at ht
      · cases ht
      next hreducing =>
        split at ht
        next hrest =>
          have hclose : q = min hquantity q := by linarith
          have hle : q ≤ hquantity := by
            rw [hclose]
            exact min_le_left _ _
          split at ht
          next hdone =>
            cases ht
            have hsame : hquantity = q := by
              rw [min_eq_right hle] at hdone
              linarith
            subst hsame
            cases hside <;> cases side <;> simp [isReducing] at hreducing <;>
              simp [PositionTransition.holding, Holding.signed, signedQuantity, Holding.flat]
          next hleft =>
            cases ht
            rw [min_eq_right hle] at hleft ⊢
            cases hside <;> cases side <;> simp [isReducing] at hreducing <;>
              simp [PositionTransition.holding, hleft, Holding.signed, signedQuantity] <;>
              first | linarith | (constructor <;> linarith)
        next hrest =>
          cases ht
          have hlt : hquantity < q := by
            by_contra hge
            rw [min_eq_right (not_lt.mp hge)] at hrest
            exact hrest (sub_self q)
          rw [min_eq_left hlt.le] at hrest ⊢
          cases hside <;> cases side <;> simp [isReducing] at hreducing <;>
            simp [PositionTransition.holding, openingSideOf, hrest, Holding.signed, signedQuantity] <;>
            first | linarith | (constructor <;> linarith)

theorem abs_signed_add_le {cap q : ℚ} {h : Holding} {side : ExecutionSide} (hh : 0 ≤ h.quantity)
    (hheld : |h.signed| ≤ cap) (hq : 0 < q) (hle : q ≤ cap) (hturn : NotAdding h side) :
    |h.signed + signedQuantity side q| ≤ cap := by
  obtain ⟨hside, hquantity, entry⟩ := h
  rw [abs_le] at hheld ⊢
  cases hside <;> cases side <;>
    simp only [NotAdding, isSameSideAdd, Holding.signed, signedQuantity] at * <;>
    simp at hturn <;> constructor <;> linarith [hheld.1, hheld.2]

/-! ## Positions and orders -/

/-- Neither a position nor the identity of an order is touched. -/
structure SameOrders (db db' : Database) : Prop where
  holding : db'.holding = db.holding
  identities : db'.orders.map ExecutionOrder.identity = db.orders.map ExecutionOrder.identity

theorem SameOrders.trans {db₁ db₂ db₃ : Database} (h : SameOrders db₁ db₂) (h' : SameOrders db₂ db₃) :
    SameOrders db₁ db₃ :=
  ⟨h'.holding.trans h.holding, h'.identities.trans h.identities⟩

theorem Unbooked.sameHolding {db db' : Database} (h : Unbooked db db') : db'.holding = db.holding :=
  congrArg Books.holding h.books

theorem Frame.sameOrders {db db' : Database} (h : Frame db db') : SameOrders db db' :=
  ⟨h.sameHolding, congrArg _ h.orders⟩

theorem Unbooked.sameOrders {db db' : Database} {id : ℕ} {f : ExecutionOrder → ExecutionOrder}
    (h : Unbooked db db') (hf : Rewritten db id f db') : SameOrders db db' := by
  refine ⟨h.sameHolding, ?_⟩
  rw [hf.orders]
  exact map_modify hf.identity

theorem sameOrders_of_writes {pointValue : ℚ} {db db' : Database}
    (h : Writes (fun _ => False) pointValue 0 db db') : SameOrders db db' := by
  induction h with
  | refl => exact ⟨rfl, rfl⟩
  | tail _ hw ih =>
    refine ih.trans ?_
    cases hw with
    | frame h => exact h.sameOrders
    | annotate id f h hf _ => exact h.sameOrders hf
    | intent o _ hbelow _ => exact absurd hbelow (Nat.not_lt_zero _)
    | settle id h =>
      obtain ⟨_, f, -, -, hf, -⟩ := h.change
      exact h.toUnbooked.sameOrders hf
    | fill a ha _ => exact ha.elim

theorem sameOrders_modifyOrder (db : Database) (id : ℕ) {f : ExecutionOrder → ExecutionOrder}
    (hf : ∀ o, (f o).identity = o.identity) : SameOrders db (db.modifyOrder id f) :=
  ⟨rfl, map_modify hf⟩

theorem sameOrders_transitionExecutionOrder {db db' : Database} {id : ℕ}
    {target : ExecutionOrderStatus} {u : Database.OrderUpdate}
    (h : db.transitionExecutionOrder id target u = .ok db') : SameOrders db db' := by
  obtain ⟨-, -, -, rfl⟩ := transitionExecutionOrder_ok h
  exact sameOrders_modifyOrder db id (fun _ => rfl)

theorem sameOrders_finalizeOrderReconciliation {db db' : Database} {id : ℕ} {reconciledBy : String}
    {detail : Option String} {at_ : Time}
    (h : db.finalizeOrderReconciliation id reconciledBy detail at_ = .ok db') : SameOrders db db' := by
  obtain ⟨g, rfl, hg⟩ := finalizeOrderReconciliation_ok h
  exact sameOrders_modifyOrder db id (fun o => (hg o).1)

/-- The position of a deployment and each of its orders are within the cap. -/
structure Database.Capped (id : ℕ) (cap : ℚ) (db : Database) : Prop where
  nonneg : 0 ≤ (db.holding id).quantity
  held : |(db.holding id).signed| ≤ cap
  ordered : ∀ o ∈ db.orders, o.deploymentId = id → o.quantity ≤ cap

section Capped

variable {id : ℕ} {cap : ℚ} {db db' : Database}

theorem Database.Capped.same (h : db.Capped id cap) (hs : SameOrders db db') : db'.Capped id cap := by
  refine ⟨hs.holding ▸ h.nonneg, hs.holding ▸ h.held, fun o ho hid => ?_⟩
  have hmem : o.identity ∈ db.orders.map ExecutionOrder.identity := by
    rw [← hs.identities]
    exact List.mem_map_of_mem ho
  obtain ⟨o', ho', hsame⟩ := List.mem_map.mp hmem
  simp only [ExecutionOrder.identity, Prod.mk.injEq] at hsame
  obtain ⟨-, hdeployment, -, -, -, hquantity, -⟩ := hsame
  rw [← hquantity]
  exact h.ordered o' ho' (hdeployment.trans hid)

theorem Database.Capped.intent {o : ExecutionOrder} (h : db.Capped id cap)
    (ho : o.deploymentId = id → o.quantity ≤ cap)
    (hholding : db'.holding = db.holding) (horders : db'.orders = db.orders ++ [o]) :
    db'.Capped id cap := by
  refine ⟨hholding ▸ h.nonneg, hholding ▸ h.held, fun x hx hid => ?_⟩
  rw [horders] at hx
  rcases List.mem_append.mp hx with hx | hx
  · exact h.ordered x hx hid
  · rw [List.mem_singleton.mp hx] at hid ⊢
    exact ho hid

theorem Database.Capped.fill {a : FillApplication} {r : LedgerApplyResult} (h : db.Capped id cap)
    (hfill : a.deploymentId = id → 0 < a.fill.quantity ∧ a.fill.quantity ≤ cap ∧
      NotAdding (db.holding id) a.fill.side)
    (happly : applyFill db a = .ok (db', r)) : db'.Capped id cap := by
  rcases applyFill_ok happly with ⟨_, -, -, rfl⟩ | ⟨-, hr, account, t, order, -, ht, -, -, hdb, -⟩
  · exact h
  · have hbooks := congrArg Books.holding (applyFill_books happly hr)
    have hidentities : db'.orders.map ExecutionOrder.identity =
        db.orders.map ExecutionOrder.identity := by
      rw [hdb]
      exact map_modify (fun _ => rfl)
    have hpost : db'.holding = Function.update db.holding a.deploymentId t.holding := by
      have hstep : (db.books.post a).holding = Function.update db.holding a.deploymentId t.holding := by
        simp only [Books.post, Database.books, ht]
      exact hbooks.trans hstep
    by_cases hsame : a.deploymentId = id
    · subst hsame
      obtain ⟨hpos, hle, hturn⟩ := hfill rfl
      obtain ⟨hsigned, hnonneg⟩ := transitionPosition_signed h.nonneg hpos ht
      have hnew : db'.holding a.deploymentId = t.holding := by
        rw [hpost, Function.update_self]
      refine ⟨hnew ▸ hnonneg, ?_, ?_⟩
      · rw [hnew, hsigned]
        exact abs_signed_add_le h.nonneg h.held hpos hle hturn
      · have hrows : ({ db' with positions := db.positions } : Database).Capped a.deploymentId cap :=
          h.same ⟨rfl, hidentities⟩
        exact hrows.ordered
    · have hother : db'.holding id = db.holding id := by
        rw [hpost, Function.update_of_ne (Ne.symm hsame)]
      refine ⟨hother ▸ h.nonneg, hother ▸ h.held, ?_⟩
      have hrows : ({ db' with positions := db.positions } : Database).Capped id cap :=
        h.same ⟨rfl, hidentities⟩
      exact hrows.ordered

end Capped

/-! ## Calls of the service -/

/-- A fill is on the side of its order and for no more than it. -/
def FillRecord.AsOrdered (fill : FillRecord) (request : MarketOrderRequest) : Prop :=
  fill.side = request.side ∧ 0 < fill.quantity ∧ fill.quantity ≤ request.quantity

/-- A broker that fills what was ordered, now or when it is asked later. -/
structure FillsAsOrdered (broker : ExecutionBroker) : Prop where
  submitted : ∀ request cost sub fill, broker.submitMarketOrder request cost = .ok sub →
    sub.fill = some fill → fill.AsOrdered request
  reported : ∀ request state fill, broker.lookupOrder request = .ok state →
    state.fill = some fill → fill.AsOrdered request

theorem fillsAsOrdered_paperBroker (quotes : String → Option ExecutableQuote) (now : Time) :
    FillsAsOrdered (paperBroker quotes now) := by
  constructor
  · intro request cost sub fill hsub hfill
    cases hsub
    obtain ⟨-, -, hside, hquantity, hpos⟩ := paperSubmit_fill hfill
    exact ⟨hside, hpos, hquantity.le⟩
  · intro request state fill hstate hfill
    cases hstate
    cases hfill

/-- The strategy sizes its entries with the sizer at the close of the bar and a fixed capital, and
its signals are valid. -/
structure TradingStrategy.SizedBy {S : Type} (strategy : TradingStrategy S) (sizer : PositionSizer)
    (capital : ℚ) : Prop where
  sized : ∀ signal row, strategy.sizeSignal signal row =
    .ok (sizer.sizeSignal signal ⟨row.bar.close, row.get "volatility"⟩ capital)
  valid : ∀ s row entries, strategy.checkEntryConditions s row = .ok entries →
    ∀ signal ∈ entries, signal.Valid

/-- A result of an evaluator whose strategy uses the sizer. -/
def EvaluatedBy (sizer : PositionSizer) (capital : ℚ) (result : ForwardDecisionResult) : Prop :=
  ∃ (S : Type) (strategy : TradingStrategy S) (ev ev' : Evaluator S) (row : BarRow) (close : Time),
    strategy.SizedBy sizer capital ∧ ev.evaluateRow strategy row close = (ev', .ok result)

/-- What an evaluation asks for is the size of a valid signal. -/
theorem EvaluatedBy.requestedQuantity {sizer : PositionSizer} {capital q : ℚ}
    {result : ForwardDecisionResult} (h : EvaluatedBy sizer capital result)
    (hq : result.requestedQuantity = some q) :
    ∃ (signal : Signal) (bar : SizingBar), signal.Valid ∧
      sizer.sizeSignal signal bar capital = some q := by
  obtain ⟨S, strategy, ev, ev', row, close, hsized, heval⟩ := h
  unfold Evaluator.evaluateRow at heval
  dsimp only at heval
  split at heval
  · cases heval
  next result' hresult =>
    simp only [Prod.mk.injEq, Except.ok.injEq] at heval
    obtain ⟨-, rfl⟩ := heval
    simp only [bind_eq_ok, pure_eq_ok] at hresult
    obtain ⟨⟨exits, entries⟩, hqueued, quantity, hquantity, rfl⟩ := hresult
    dsimp only at hq hquantity
    subst hq
    have hvalid : ∀ signal ∈ entries, signal.Valid := by
      simp only [evaluateQueuedSignals, bind_eq_ok, pure_eq_ok, Prod.mk.injEq] at hqueued
      obtain ⟨_, -, entries', hentries, -, rfl⟩ := hqueued
      exact hsized.valid _ _ _ hentries
    unfold Execution.requestedQuantity at hquantity
    split at hquantity
    next entry rest =>
      split at hquantity
      · rw [hsized.sized] at hquantity
        exact ⟨entry, _, hvalid entry (by simp), Except.ok.inj hquantity⟩
      · cases hquantity
    · cases hquantity

/-- A flatten, or the result of an evaluator that uses the sizer. -/
def BarCall.SizedBy (call : BarCall) (sizer : PositionSizer) (capital : ℚ) : Prop :=
  call.flatten = true ∨ EvaluatedBy sizer capital call.result

/-- The order that a call maps its signal to. -/
def BarCall.order (call : BarCall) (h : Holding) : Option (ExecutionSide × ℚ) :=
  if call.flatten then mapSignalToOrder .close h.side h.quantity none
  else mapSignalToOrder call.result.signalAction h.side h.quantity call.result.requestedQuantity

/-- The signal of the call is not for the side of the open position. -/
def BarCall.NotAdding (call : BarCall) (h : Holding) : Prop :=
  call.flatten = false →
    (call.result.signalAction = .buy → h.side ≠ .long) ∧
      (call.result.signalAction = .sell → h.side ≠ .short)

section Call

variable {cfg : ServiceConfig} {w : World} {call : BarCall} {env : BarEnvironment} {id : ℕ} {cap : ℚ}
  {deployment : ExecutionDeployment} {db : Database} {decisionId orderId fillId : ℕ}
  {order : ExecutionOrder}

theorem mapSignalToOrder_pos {signal : SignalAction} {h : Holding} {requested : Option ℚ}
    {side : ExecutionSide} {q : ℚ}
    (hmap : mapSignalToOrder signal h.side h.quantity requested = some (side, q)) : 0 < q := by
  cases signal <;> simp only [mapSignalToOrder] at hmap
  case hold => cases hmap
  case close =>
    split at hmap
    next hlong =>
      cases hmap
      exact hlong.2
    · split at hmap
      next hshort =>
        cases hmap
        exact hshort.2
      · cases hmap
  all_goals
    obtain ⟨x, -, hx⟩ := Option.bind_eq_some_iff.mp hmap
    split at hx
    · cases hx
    next hpos =>
      cases hx
      exact not_le.mp hpos

theorem mapSignalToOrder_close {h : Holding} {requested : Option ℚ} {side : ExecutionSide} {q : ℚ}
    (hmap : mapSignalToOrder .close h.side h.quantity requested = some (side, q)) : q = |h.signed| := by
  obtain ⟨hside, quantity, entry⟩ := h
  simp only [mapSignalToOrder] at hmap
  split at hmap
  next hlong =>
    cases hmap
    rw [show hside = .long from hlong.1, Holding.signed, abs_of_pos hlong.2]
  · split at hmap
    next hshort =>
      cases hmap
      rw [show hside = .short from hshort.1, Holding.signed, abs_neg, abs_of_pos hshort.2]
    · cases hmap

theorem entry_of_order {requested : Option ℚ} {side action : ExecutionSide} {q : ℚ}
    (horder : requested.bind (fun x => if x ≤ 0 then none else some (action, x)) = some (side, q)) :
    side = action ∧ requested = some q := by
  obtain ⟨x, hx, hsome⟩ := Option.bind_eq_some_iff.mp horder
  split at hsome
  · cases hsome
  · cases hsome
    exact ⟨rfl, hx⟩

theorem notAdding_of_close {h : Holding} {requested : Option ℚ} {side : ExecutionSide} {q : ℚ}
    (hmap : mapSignalToOrder .close h.side h.quantity requested = some (side, q)) :
    Execution.NotAdding h side := by
  simp only [mapSignalToOrder] at hmap
  split at hmap
  next hlong =>
    cases hmap
    simp [Execution.NotAdding, isSameSideAdd, hlong.1]
  · split at hmap
    next hshort =>
      cases hmap
      simp [Execution.NotAdding, isSameSideAdd, hshort.1]
    · cases hmap

theorem notAdding_of_order {h : Holding} {side : ExecutionSide} {q : ℚ}
    (hcall : call.NotAdding h) (horder : call.order h = some (side, q)) :
    Execution.NotAdding h side := by
  unfold BarCall.order at horder
  split at horder
  · exact notAdding_of_close horder
  next hflatten =>
    obtain ⟨hbuy, hsell⟩ := hcall (by simpa using hflatten)
    cases hsignal : call.result.signalAction <;> rw [hsignal] at horder
    case hold => cases horder
    case close => exact notAdding_of_close horder
    case buy =>
      obtain ⟨rfl, -⟩ := entry_of_order horder
      simpa [Execution.NotAdding, isSameSideAdd] using hbuy hsignal
    case sell =>
      obtain ⟨rfl, -⟩ := entry_of_order horder
      simpa [Execution.NotAdding, isSameSideAdd] using hsell hsignal

theorem BarCall.SizedBy.order_le {sizer : PositionSizer} {capital price : ℚ} {h : Holding}
    {side : ExecutionSide} {q : ℚ} (hsized : call.SizedBy sizer capital)
    (hcap : sizer.maxPositionSize price capital = some cap) (hheld : |h.signed| ≤ cap)
    (horder : call.order h = some (side, q)) : q ≤ cap := by
  have hentry : ∀ {action : ExecutionSide},
      call.result.requestedQuantity.bind (fun x => if x ≤ 0 then none else some (action, x)) =
        some (side, q) → call.flatten = false → q ≤ cap := by
    intro action hbind hflatten
    have hevaluated := hsized.resolve_left (by simp [hflatten])
    obtain ⟨signal, bar, hvalid, hsize⟩ := hevaluated.requestedQuantity (entry_of_order hbind).2
    refine (sizer.sizeSignal_bounds hvalid hsize).2 cap ?_
    rw [sizer.maxPositionSize_price bar.price price]
    exact hcap
  unfold BarCall.order at horder
  split at horder
  · rw [mapSignalToOrder_close horder]
    exact hheld
  next hflatten =>
    simp only [Bool.not_eq_true] at hflatten
    cases hsignal : call.result.signalAction <;> rw [hsignal] at horder
    case hold => cases horder
    case close =>
      rw [mapSignalToOrder_close horder]
      exact hheld
    all_goals exact hentry horder hflatten

theorem prepareOrder_orders {p : Preparation} (hid : deployment.id = call.deploymentId)
    (h : prepareOrder cfg db deployment call env decisionId orderId = .ok p) :
    (∃ db' outcome rejection, p = .concluded db' outcome rejection ∧
      outcome ≠ .orderFilled ∧ SameOrders db db') ∨
    ∃ db' order, p = .intent db' order ∧ order.id = orderId ∧ db'.fills = db.fills ∧
      db'.holding = db.holding ∧ db'.orders = db.orders ++ [order] ∧
      order.deploymentId = call.deploymentId ∧
      call.order (db.holding call.deploymentId) = some (order.side, order.quantity) := by
  simp only [prepareOrder, bind_eq_ok] at h
  obtain ⟨db₁, h₁, h⟩ := h
  have hcreated := (frame_createExecutionDecision h₁).1.sameOrders
  have horders : db₁.orders = db.orders := (frame_createExecutionDecision h₁).1.orders
  have hfills : db₁.fills = db.fills := (frame_createExecutionDecision h₁).1.fills
  have hgate : ∀ {side quantity},
      gateOrder cfg db₁ deployment call env decisionId orderId side quantity = .ok p →
      call.order (db.holding call.deploymentId) = some (side, quantity) →
      (∃ db' outcome rejection, p = .concluded db' outcome rejection ∧
      outcome ≠ .orderFilled ∧ SameOrders db db') ∨
      ∃ db' order, p = .intent db' order ∧ order.id = orderId ∧ db'.fills = db.fills ∧
        db'.holding = db.holding ∧ db'.orders = db.orders ++ [order] ∧
        order.deploymentId = call.deploymentId ∧
        call.order (db.holding call.deploymentId) = some (order.side, order.quantity) := by
    intro side quantity hgate hmap
    rcases gateOrder_ok hgate with ⟨db', rejection, rfl, hframe⟩ | ⟨order, rfl, rfl, -⟩
    · exact .inl ⟨db', _, _, rfl, by simp, hcreated.trans hframe.sameOrders⟩
    · refine .inr ⟨_, _, rfl, rfl, hfills, hcreated.holding, ?_, hid, hmap⟩
      rw [← horders]
      rfl
  rw [hcreated.holding, hid] at h
  split at h
  · simp only [bind_eq_ok, pure_eq_ok] at h
    obtain ⟨db₂, h₂, rfl⟩ := h
    exact .inl ⟨db₂, _, _, rfl, by simp, hcreated.trans (frame_updateDeploymentLastBarClose h₂).sameOrders⟩
  · split at h
    next hflatten =>
      split at h
      · simp only [bind_eq_ok, pure_eq_ok] at h
        obtain ⟨db₂, h₂, rfl⟩ := h
        exact .inl ⟨db₂, _, _, rfl, by simp, hcreated.trans (frame_updateExecutionDecisionOutcome h₂).sameOrders⟩
      next side quantity hmap =>
        refine hgate h ?_
        rw [BarCall.order, if_pos hflatten]
        exact hmap
    next hflatten =>
      split at h
      · simp only [bind_eq_ok, pure_eq_ok] at h
        obtain ⟨db₂, h₂, rfl⟩ := h
        exact .inl ⟨db₂, _, _, rfl, by simp, hcreated.trans (frame_concludeDecision h₂).sameOrders⟩
      next side quantity hmap =>
        refine hgate h ?_
        rw [BarCall.order, if_neg hflatten]
        exact hmap

theorem both_capped_recordSubmission {submission : BrokerSubmissionResult} (h : w.Both (·.Capped id cap))
    (hfill : ∀ fill, submission.fill = some fill → deployment.id = id →
      0 < fill.quantity ∧ fill.quantity ≤ cap ∧
        Execution.NotAdding (w.session.working.holding id) fill.side) :
    (recordSubmission cfg w deployment call env decisionId order fillId submission).1.Both
      (·.Capped id cap) := by
  have hsettle : ∀ {target u outcome db r}, (do
      let db ← w.session.working.transitionExecutionOrder order.id target u
      concludeDecision db call decisionId outcome) = .ok db →
      World.Both (·.Capped id cap) (w.settle (.ok db) r).1 := by
    intro target u outcome db r hdb
    simp only [bind_eq_ok] at hdb
    obtain ⟨mid, hmid, hdb⟩ := hdb
    exact .of_eq rfl (h.working.same ((sameOrders_transitionExecutionOrder hmid).trans
      (frame_concludeDecision hdb).sameOrders))
  have hwrite : ∀ {target u outcome r}, World.Both (·.Capped id cap) (w.settle (do
      let db ← w.session.working.transitionExecutionOrder order.id target u
      concludeDecision db call decisionId outcome) r).1 := by
    intro target u outcome r
    cases hdb : (do
        let db ← w.session.working.transitionExecutionOrder order.id target u
        concludeDecision db call decisionId outcome) with
    | error e => exact .of_eq rfl h.committed
    | ok db => exact hsettle hdb
  unfold recordSubmission
  split
  · exact hwrite
  · split
    next fill _ hsome =>
      rcases persistFill_cases cfg w deployment call env decisionId order fillId fill with
        ⟨f, heq⟩ | ⟨db, f, hdb, heq⟩ | ⟨db₁, ledger, db₂, happly, hconclude, heq⟩
      · rw [heq]
        exact .of_eq rfl h.committed
      · rw [heq]
        simp only [parkUnpersistedFill, bind_eq_ok] at hdb
        obtain ⟨mid, hmid, hdb⟩ := hdb
        exact .of_eq rfl (h.committed.same ((sameOrders_transitionExecutionOrder hmid).trans
          (frame_updateExecutionDecisionOutcome hdb).sameOrders))
      · rw [heq]
        have hfilled : db₁.Capped id cap := h.working.fill (hfill fill hsome) happly
        exact .of_eq rfl (hfilled.same (frame_concludeDecision hconclude).sameOrders)
    · exact hwrite

theorem both_capped_processCompletedBar (h : w.Both (·.Capped id cap))
    (hbroker : FillsAsOrdered env.broker)
    (horder : ∀ side q, call.deploymentId = id → call.order (w.session.working.holding id) = some (side, q) →
      q ≤ cap)
    (hturn : call.deploymentId = id → call.NotAdding (w.session.working.holding id)) :
    (processCompletedBar cfg w call env).1.Both (·.Capped id cap) := by
  have hfail : ∀ n, World.Both (·.Capped id cap) { w with
      session := ⟨w.session.committed, w.session.committed⟩, nextId := n
      reports := w.reports.drop } := fun _ => .of_eq rfl h.committed
  unfold processCompletedBar
  dsimp only
  split
  · exact .of_eq rfl h.committed
  next deployment hdeployment =>
    have hid : deployment.id = call.deploymentId := key_of_lookup hdeployment
    split
    · exact h
    · split
      · exact h
      · split
        · exact hfail _
        next db outcome rejection hprepare =>
          rcases prepareOrder_orders hid hprepare with ⟨db', _, _, hp, -, hsame⟩ | ⟨_, _, hp, -⟩
          · cases hp
            exact .of_eq rfl (h.working.same hsame)
          · cases hp
        next db order hprepare =>
          rcases prepareOrder_orders hid hprepare with
            ⟨_, _, _, hp, -⟩ | ⟨_, _, hp, -, -, hholding, horders, howner, hmap⟩
          · cases hp
          · cases hp
            have hle : order.deploymentId = id → order.quantity ≤ cap := by
              intro hown
              have hcall : call.deploymentId = id := howner.symm.trans hown
              exact horder order.side order.quantity hcall (hcall ▸ hmap)
            have hintent : db.Capped id cap := h.working.intent hle hholding horders
            split
            · exact hfail _
            · unfold submitIntent
              split
              · exact .of_eq rfl hintent
              · dsimp only
                split
                · exact .of_eq rfl hintent
                next submission hsubmit =>
                  split
                  · exact .of_eq rfl hintent
                  · refine both_capped_recordSubmission (.of_eq rfl hintent) (fun fill hfill hown => ?_)
                    obtain ⟨hside, hpos, hquantity⟩ := hbroker.submitted _ _ _ _ hsubmit hfill
                    have hcall : call.deploymentId = id := hid.symm.trans hown
                    refine ⟨hpos, hquantity.trans (hle (howner.trans hcall)), ?_⟩
                    show Execution.NotAdding (db.holding id) fill.side
                    rw [hholding, show fill.side = order.side from hside]
                    exact notAdding_of_order (hturn hcall) (hcall ▸ hmap)

end Call

/-! ## Reconciliation -/

section Resolutions

variable {cfg : ServiceConfig} {db db' : Database} {order : ExecutionOrder}
  {deployment : ExecutionDeployment} {fillId id : ℕ} {cap : ℚ} {reconciledBy : String}
  {detail : Option String} {at_ : Time}

theorem Database.Capped.filledResolution {fill : FillRecord} (h : db.Capped id cap)
    (hfill : deployment.id = id → 0 < fill.quantity ∧ fill.quantity ≤ cap ∧
      NotAdding (db.holding id) fill.side)
    (hr : applyFilledResolution cfg db order deployment fill fillId reconciledBy detail at_ = .ok db') :
    db'.Capped id cap := by
  simp only [applyFilledResolution, bind_eq_ok] at hr
  obtain ⟨⟨db₁, r⟩, h₁, db₂, h₂, h₃⟩ := hr
  exact (h.fill hfill h₁).same ((sameOrders_finalizeOrderReconciliation h₂).trans
    (frame_recordDecisionOutcome h₃).sameOrders)

theorem sameOrders_applyFailedResolution {reason : String}
    (h : applyFailedResolution db order reconciledBy detail reason at_ = .ok db') :
    SameOrders db db' := by
  simp only [applyFailedResolution, bind_eq_ok] at h
  obtain ⟨db₁, h₁, db₂, h₂, h₃⟩ := h
  exact ((sameOrders_transitionExecutionOrder h₁).trans (sameOrders_finalizeOrderReconciliation h₂)).trans
    (frame_recordDecisionOutcome h₃).sameOrders

theorem sameOrders_recordReconciliationAttempt {orderId : ℕ} {error : String}
    (h : db.recordReconciliationAttempt orderId at_ error = .ok db') : SameOrders db db' := by
  obtain ⟨f, rfl, hf⟩ := recordReconciliationAttempt_ok h
  exact sameOrders_modifyOrder db orderId (fun o => (hf o).1)

/-- A fill that the broker reports for the order does not add to the position. -/
def ReportNotAdding (broker : ExecutionBroker) (db : Database) (order : ExecutionOrder)
    (deployment : ExecutionDeployment) : Prop :=
  ∀ state fill, broker.lookupOrder (lookupRequestForOrder order deployment) = .ok state →
    state.status = .filled → state.fill = some fill → NotAdding (db.holding deployment.id) fill.side

theorem Database.Capped.reconcileOrder {broker : ExecutionBroker} {now : Time}
    {outcome : ReconciliationOutcome} (h : db.Capped id cap) (hbroker : FillsAsOrdered broker)
    (horder : deployment.id = id → order.quantity ≤ cap)
    (hturn : deployment.id = id → ReportNotAdding broker db order deployment)
    (hr : reconcileOrder cfg broker now db order deployment fillId = .ok (db', outcome)) :
    db'.Capped id cap := by
  simp only [Execution.reconcileOrder, bind_eq_ok] at hr
  obtain ⟨state, hstate, hr⟩ := hr
  split at hr
  next hfilled =>
    split at hr
    all_goals
      simp only [bind_eq_ok, pure_eq_ok, Prod.mk.injEq] at hr
      obtain ⟨mid, hmid, rfl, -⟩ := hr
    · exact h.same (sameOrders_recordReconciliationAttempt hmid)
    next fill hfill =>
      refine h.filledResolution (fun hown => ?_) hmid
      obtain ⟨-, hpos, hquantity⟩ := hbroker.reported _ _ _ hstate hfill
      subst hown
      exact ⟨hpos, hquantity.trans (horder rfl), hturn rfl state fill hstate hfilled hfill⟩
  all_goals
    simp only [bind_eq_ok, pure_eq_ok, Prod.mk.injEq] at hr
    obtain ⟨mid, hmid, rfl, -⟩ := hr
  · exact h.same (sameOrders_applyFailedResolution hmid)
  · exact h.same (sameOrders_applyFailedResolution hmid)
  · exact h.same (sameOrders_recordReconciliationAttempt hmid)

/-- No fill that is reported in a pass adds to the position that it finds. -/
def PassNotAdding (cfg : ServiceConfig) (broker : ExecutionBroker) (now : Time) (id : ℕ) :
    List ExecutionOrder → Database → ℕ → Prop
  | [], _, _ => True
  | order :: rest, db, nextId =>
    match db.getExecutionDeployment order.deploymentId with
    | none => PassNotAdding cfg broker now id rest db nextId
    | some deployment =>
      (deployment.id = id → ReportNotAdding broker db order deployment) ∧
      ∀ db' outcome, reconcileOrder cfg broker now db order deployment nextId = .ok (db', outcome) →
        PassNotAdding cfg broker now id rest db' (nextId + 1)

theorem Database.Capped.reconcileOrders {broker : ExecutionBroker} {now : Time}
    {orders : List ExecutionOrder} {n n' : ℕ} {outcomes : List ReconciliationOutcome}
    (h : db.Capped id cap) (hbroker : FillsAsOrdered broker)
    (horders : ∀ o ∈ orders, o.deploymentId = id → o.quantity ≤ cap)
    (hturn : PassNotAdding cfg broker now id orders db n)
    (hr : reconcileOrders cfg broker now orders db n = .ok (db', n', outcomes)) :
    db'.Capped id cap := by
  induction orders generalizing db n n' outcomes with
  | nil =>
    cases hr
    exact h
  | cons order rest ih =>
    have hrest : ∀ o ∈ rest, o.deploymentId = id → o.quantity ≤ cap :=
      fun o ho => horders o (List.mem_cons_of_mem order ho)
    unfold Execution.reconcileOrders at hr
    unfold PassNotAdding at hturn
    split at hr
    next hnone =>
      rw [hnone] at hturn
      exact ih h hrest hturn hr
    next deployment hdeployment =>
      rw [hdeployment] at hturn
      have hid : deployment.id = order.deploymentId := key_of_lookup hdeployment
      simp only [bind_eq_ok, pure_eq_ok, Prod.mk.injEq] at hr
      obtain ⟨⟨db₁, outcome⟩, h₁, ⟨db₂, n₂, rest'⟩, h₂, rfl, rfl, rfl⟩ := hr
      have hfirst : db₁.Capped id cap :=
        h.reconcileOrder hbroker (fun hown => horders order (by simp) (hid.symm.trans hown)) hturn.1 h₁
      exact ih hfirst hrest (hturn.2 db₁ outcome h₁) h₂

/-- The fill of an operator is for no more than the order and does not add to the position. -/
def ResolutionNotAdding (id : ℕ) (db : Database) (orderId : ℕ) (body : OrderResolutionRequest)
    (now : Time) : Prop :=
  ∀ order fill, db.getExecutionOrder orderId = some order → order.deploymentId = id →
    body.fillFor order now = some fill → 0 < fill.quantity ∧ fill.quantity ≤ order.quantity ∧
      NotAdding (db.holding id) fill.side

theorem Database.Capped.resolveOrder {orderId : ℕ} {body : OrderResolutionRequest} {now : Time}
    {outcome : ReconciliationOutcome} (h : db.Capped id cap)
    (hturn : ResolutionNotAdding id db orderId body now)
    (hr : resolveOrder cfg db orderId body fillId now = .ok (db', outcome)) : db'.Capped id cap := by
  unfold Execution.resolveOrder at hr
  split at hr
  · cases hr
  next order horder =>
    split at hr
    · cases hr
    next deployment hdeployment =>
      have hid : deployment.id = order.deploymentId := key_of_lookup hdeployment
      simp only [resolveOrderManually, bind_eq_ok] at hr
      obtain ⟨-, -, hr⟩ := hr
      split at hr
      · split at hr
        · cases hr
        next fill hfill =>
          simp only [bind_eq_ok, pure_eq_ok, Prod.mk.injEq] at hr
          obtain ⟨mid, hmid, rfl, -⟩ := hr
          refine h.filledResolution (fun hown => ?_) hmid
          have howner : order.deploymentId = id := hid.symm.trans hown
          obtain ⟨hpos, hquantity, hfits⟩ := hturn order fill horder howner hfill
          exact ⟨hpos, hquantity.trans (h.ordered order (mem_of_lookup horder) howner), hfits⟩
      · simp only [bind_eq_ok, pure_eq_ok, Prod.mk.injEq] at hr
        obtain ⟨mid, hmid, rfl, -⟩ := hr
        exact h.same (sameOrders_applyFailedResolution hmid)

end Resolutions

/-! ## Whole runs -/

/-- The brokers of an event fill what was ordered. -/
def Event.FillsAsOrdered : Event → Prop
  | .processBar _ env => Execution.FillsAsOrdered env.broker
  | .reconcile _ broker _ => Execution.FillsAsOrdered broker
  | _ => True

/-- A call for the deployment is a flatten or comes from an evaluator that uses the sizer. -/
def Event.SizedBy (sizer : PositionSizer) (capital : ℚ) (id : ℕ) : Event → Prop
  | .processBar call _ => call.deploymentId = id → call.SizedBy sizer capital
  | _ => True

/-- The condition on an event: neither the signal of a call, nor a fill that the broker reports
later, nor one that an operator asserts is for the side of the open position. -/
def NoAddition (cfg : ServiceConfig) (id : ℕ) (w : World) : Event → Prop
  | .processBar call _ => call.deploymentId = id → call.NotAdding (w.session.working.holding id)
  | .reconcile deploymentId broker now =>
      PassNotAdding cfg broker now id
        (w.session.working.listPendingReconciliationOrders deploymentId) w.session.working w.nextId
  | .resolve orderId body now => ResolutionNotAdding id w.session.committed orderId body now
  | _ => True

theorem both_capped_step {cfg : ServiceConfig} {sizer : PositionSizer} {capital price cap : ℚ} {id : ℕ}
    {w : World} {e : Event} (hcap : sizer.maxPositionSize price capital = some cap)
    (hbroker : e.FillsAsOrdered) (hsized : e.SizedBy sizer capital id) (hturn : NoAddition cfg id w e)
    (h : w.Both (·.Capped id cap)) : (step cfg w e).Both (·.Capped id cap) := by
  have hframe : ∀ {result : Except ExecutionError Database},
      (∀ db, result = .ok db → Frame w.session.working db) → (w.amend result).Both (·.Capped id cap) :=
    fun hresult => both_amend h (fun db hdb => h.working.same (hresult db hdb).sameOrders)
  cases e with
  | processBar call env =>
    refine both_capped_processCompletedBar h hbroker (fun side q hown horder => ?_) hturn
    exact (hsized hown).order_le hcap h.working.held horder
  | startup quotes now =>
    simp only [step]
    split
    · exact .of_eq rfl h.committed
    next db result hrecover =>
      have hwrites : Writes (fun _ => False) cfg.pointValue 0 w.session.committed db :=
        recover_writes hrecover
      exact .of_eq rfl (h.committed.same (sameOrders_of_writes hwrites))
  | reconcile deploymentId broker now =>
    simp only [step]
    split
    · exact .of_eq rfl h.committed
    next hpass =>
      refine ⟨h.committed, h.working.reconcileOrders hbroker (fun o ho => ?_) hturn hpass⟩
      exact h.working.ordered o (List.mem_filter.mp ho).1
  | resolve id' body now =>
    simp only [step]
    split
    · split
      · exact h
      next hresolve => exact .of_eq rfl (h.committed.resolveOrder hturn hresolve)
    · exact h
  | operate command =>
    simp only [step]
    split
    · split
      · exact h
      next hcommand => exact .of_eq rfl (h.committed.same (frame_operatorCommand hcommand).sameOrders)
    · exact h
  | acquireLease d token ttl now => exact hframe (fun _ hdb => frame_acquireWorkerLease hdb)
  | heartbeatLease d token ttl now => exact hframe (fun _ hdb => frame_heartbeatWorkerLease hdb)
  | releaseLease d token => exact hframe (fun _ hdb => frame_releaseWorkerLease hdb)
  | clearPending d => exact hframe (fun _ hdb => frame_clearPendingDeploymentAction hdb)
  | commit => exact .of_eq rfl h.working
  | restart => exact .of_eq rfl h.committed

/-! ## Repeated entries, live and in the back-test -/

/-- The broker fills the whole order of the call, under a new external id. -/
def FillsWhole (cfg : ServiceConfig) (w : World) (env : BarEnvironment) : Prop :=
  ∀ request sub fill, request.orderId = w.nextId + 1 →
    env.broker.submitMarketOrder request cfg.costConfig = .ok sub → sub.fill = some fill →
    fill.side = request.side ∧ fill.quantity = request.quantity ∧
      (fill.brokerMode, fill.externalFillId) ∉ w.session.working.recordedKeys

section Entries

variable {cfg : ServiceConfig} {w w' : World} {call : BarCall} {env : BarEnvironment}
  {deployment : ExecutionDeployment} {db : Database} {order : ExecutionOrder}
  {decisionId fillId : ℕ} {r : BarProcessResult}

/-- The position after a submission that ended in a fill of the whole order. -/
theorem recordSubmission_holding {submission : BrokerSubmissionResult}
    (hfill : ∀ fill, submission.fill = some fill → fill.side = order.side ∧
      fill.quantity = order.quantity ∧
      (fill.brokerMode, fill.externalFillId) ∉ w.session.working.recordedKeys)
    (h : recordSubmission cfg w deployment call env decisionId order fillId submission = (w', .ok r))
    (houtcome : r.outcome = .orderFilled) :
    ∃ price t, transitionPosition (w.session.working.holding deployment.id) order.side order.quantity
        price = .ok t ∧ w'.session.working.holding deployment.id = t.holding := by
  have hsettle : ∀ {result : Except ExecutionError Database} {outcome : DecisionOutcome},
      w.settle result (barResult call decisionId outcome (some order.id)) = (w', .ok r) →
      outcome ≠ .orderFilled → False := by
    intro result outcome heq hne
    cases result with
    | error e => cases heq
    | ok db =>
      cases heq
      exact hne houtcome
  unfold recordSubmission at h
  split at h
  · exact (hsettle h (by simp)).elim
  · split at h
    next fill _ hsome =>
      obtain ⟨hside, hquantity, hkey⟩ := hfill fill hsome
      obtain ⟨db₁, ledger, db₂, happly, hconclude, rfl⟩ := persistFill_eq_ok h
      rcases applyFill_ok happly with ⟨_, hfound, -⟩ | ⟨-, hr, _, t, _, -, ht, -⟩
      · rw [getExecutionFillByExternalId_eq_none.mpr hkey] at hfound
        cases hfound
      · refine ⟨fill.price, t, ?_, ?_⟩
        · rw [← hside, ← hquantity]
          exact ht
        · show db₂.holding deployment.id = t.holding
          have hbooks := congrArg Books.holding (applyFill_books happly hr)
          have hstep : (w.session.working.books.post (fillApplicationOf cfg deployment order.id
              fillId fill false env.now)).holding deployment.id = t.holding := by
            simp only [Books.post, Database.books, ht]
            exact Function.update_self _ _ _
          rw [(frame_concludeDecision hconclude).sameHolding, ← hstep, ← hbooks]
          rfl
    · exact (hsettle h (by simp)).elim

theorem filledCall_holding (hwhole : FillsWhole cfg w env)
    (h : processCompletedBar cfg w call env = (w', .ok r)) (houtcome : r.outcome = .orderFilled)
    (hnew : r.duplicate = false) :
    ∃ deployment db order price t,
      w.session.working.getExecutionDeployment call.deploymentId = some deployment ∧
      prepareOrder cfg w.session.working deployment call env w.nextId (w.nextId + 1) =
        .ok (.intent db order) ∧
      call.order (w.session.working.holding call.deploymentId) = some (order.side, order.quantity) ∧
      transitionPosition (w.session.working.holding call.deploymentId) order.side order.quantity price =
        .ok t ∧
      w'.session.working.holding call.deploymentId = t.holding := by
  unfold processCompletedBar at h
  dsimp only at h
  split at h
  · cases h
  next deployment hdeployment =>
    have hid : deployment.id = call.deploymentId := key_of_lookup hdeployment
    split at h
    · cases h
      cases houtcome
    · split at h
      · cases h
        cases hnew
      · split at h
        · cases h
        next db outcome rejection hprepare =>
          rcases prepareOrder_orders hid hprepare with ⟨_, _, _, hp, hne, -⟩ | ⟨_, _, hp, -⟩
          · cases hp
            cases h
            exact absurd houtcome hne
          · cases hp
        next db order hprepare =>
          rcases prepareOrder_orders hid hprepare with
            ⟨_, _, _, hp, -⟩ | ⟨_, _, hp, horderId, hfills, hholding, -, -, hmap⟩
          · cases hp
          · cases hp
            split at h
            · cases h
            · unfold submitIntent at h
              split at h
              · cases h
              · dsimp only at h
                split at h
                · cases h
                next submission hsubmit =>
                  split at h
                  · cases h
                  · have hfill : ∀ fill, submission.fill = some fill → fill.side = order.side ∧
                        fill.quantity = order.quantity ∧
                        (fill.brokerMode, fill.externalFillId) ∉ db.recordedKeys := by
                      intro fill hfill
                      rw [Database.recordedKeys, hfills]
                      exact hwhole _ _ _ horderId hsubmit hfill
                    obtain ⟨price, t, ht, hafter⟩ := recordSubmission_holding hfill h houtcome
                    refine ⟨deployment, db, order, price, t, hdeployment, hprepare, hmap, ?_, ?_⟩
                    · rw [← hholding, ← hid]
                      exact ht
                    · rw [← hid]
                      exact hafter

/-- One entry signal: the call that it becomes on the live path, and the bar at whose open the
back-test fills it. -/
structure EntryStep where
  signal : Signal
  bar : FillBar
  tradeId : String
  call : BarCall
  env : BarEnvironment

/-- Both paths take the entry. -/
def EntryStep.execute (cfg : ServiceConfig) (sizer : PositionSizer) (capital : ℚ)
    (state : World × List Trade) (s : EntryStep) : World × List Trade :=
  (step cfg state.1 (.processBar s.call s.env),
    executeEntry sizer capital s.bar s.tradeId state.2 s.signal)

/-- The entry is on one side of one symbol, is sized alike on both paths, and is filled at once on
the live path. -/
structure EntryStep.Filled (cfg : ServiceConfig) (sizer : PositionSizer) (capital : ℚ) (id : ℕ)
    (side : ExecutionSide) (symbol : String) (state : World × List Trade) (s : EntryStep) : Prop where
  deployment : s.call.deploymentId = id
  symbol : s.signal.symbol = symbol
  action : s.call.flatten = false ∧
    s.call.result.signalAction = (match side with | .buy => .buy | .sell => .sell)
  valid : s.signal.Valid
  sized : s.call.result.requestedQuantity =
    sizer.sizeSignal s.signal s.bar.toSizingBar capital
  whole : FillsWhole cfg state.1 s.env
  filled : ∃ w' r, processCompletedBar cfg state.1 s.call s.env = (w', .ok r) ∧
    r.outcome = .orderFilled ∧ r.duplicate = false

/-- What the entries ask for together. -/
def requested (sizer : PositionSizer) (capital : ℚ) (steps : List EntryStep) : ℚ :=
  (steps.map (fun s => (sizer.sizeSignal s.signal s.bar.toSizingBar capital).getD 0)).sum

/-- The live position is all that was asked for on the side of the entries, and the open trades of
the back-test are as much of it as the cap leaves. -/
structure AddedUp (sizer : PositionSizer) (capital : ℚ) (id : ℕ) (side : ExecutionSide)
    (symbol : String) (asked : ℚ) (state : World × List Trade) : Prop where
  nonneg : 0 ≤ (state.1.session.working.holding id).quantity
  asked_nonneg : 0 ≤ asked
  live : (state.1.session.working.holding id).signed = signedQuantity side asked
  tested : openQuantity state.2 symbol = sizer.withinCap capital asked

/-- The order of a filled entry is what the sizer asked for, on the side of the entries. -/
theorem EntryStep.Filled.order_eq {sizer : PositionSizer} {capital : ℚ} {id : ℕ}
    {side side' : ExecutionSide} {symbol : String} {state : World × List Trade} {s : EntryStep}
    {h : Holding} {q : ℚ} (hs : s.Filled cfg sizer capital id side symbol state)
    (horder : s.call.order h = some (side', q)) :
    side' = side ∧ sizer.sizeSignal s.signal s.bar.toSizingBar capital = some q := by
  rw [← hs.sized]
  obtain ⟨hflatten, haction⟩ := hs.action
  rw [BarCall.order, if_neg (by simp [hflatten]), haction] at horder
  cases side <;> exact entry_of_order horder

/-- An entry that the live path fills adds its whole size there, and what the cap leaves of it to the
trades of the back-test. -/
theorem EntryStep.Filled.addedUp {sizer : PositionSizer} {capital asked : ℚ} {id : ℕ}
    {side : ExecutionSide} {symbol : String} {state : World × List Trade} {s : EntryStep}
    (hs : s.Filled cfg sizer capital id side symbol state)
    (h : AddedUp sizer capital id side symbol asked state) :
    AddedUp sizer capital id side symbol
      (asked + (sizer.sizeSignal s.signal s.bar.toSizingBar capital).getD 0)
      (s.execute cfg sizer capital state) := by
  obtain ⟨w', r, hcall, houtcome, hnew⟩ := hs.filled
  obtain ⟨deployment, db, order, price, t, hdeployment, hprepare, horder, ht, hafter⟩ :=
    filledCall_holding hs.whole hcall houtcome hnew
  obtain ⟨hside, hsize⟩ := hs.order_eq horder
  obtain ⟨hpos, -⟩ := sizer.sizeSignal_bounds hs.valid hsize
  rw [hs.deployment] at ht hafter
  rw [hside] at ht
  obtain ⟨hsigned, hnonneg⟩ := transitionPosition_signed h.nonneg hpos ht
  have hworld : (s.execute cfg sizer capital state).1.session.working.holding id = t.holding := by
    simp only [EntryStep.execute, step, hcall]
    exact hafter
  rw [hsize, Option.getD_some]
  refine ⟨hworld ▸ hnonneg, add_nonneg h.asked_nonneg hpos.le, ?_, ?_⟩
  · rw [hworld, hsigned, h.live]
    cases side with
    | buy => rfl
    | sell => exact (neg_add _ _).symm
  · have hopen := h.tested
    rw [← hs.symbol] at hopen ⊢
    exact openQuantity_executeEntry hsize hpos hopen

theorem addedUp_run {sizer : PositionSizer} {capital asked : ℚ} {id : ℕ} {side : ExecutionSide}
    {symbol : String} {state : World × List Trade} {steps : List EntryStep}
    (hsteps : Admissible (EntryStep.execute cfg sizer capital)
      (fun state s => s.Filled cfg sizer capital id side symbol state) state steps)
    (h : AddedUp sizer capital id side symbol asked state) :
    AddedUp sizer capital id side symbol (asked + requested sizer capital steps)
      (run (EntryStep.execute cfg sizer capital) state steps) := by
  induction steps generalizing state asked with
  | nil => simpa [requested] using h
  | cons s steps ih =>
    have hrest := ih hsteps.2 (hsteps.1.addedUp h)
    rw [add_assoc] at hrest
    exact hrest

end Entries

theorem PositionSizer.maxPositionSize_nonneg {sizer : PositionSizer} {price capital cap : ℚ}
    (h : sizer.maxPositionSize price capital = some cap) : 0 ≤ cap := by
  cases sizer with
  | fixedQuantity s =>
    cases h
    exact s.quantity_pos.le
  | fixedSafetyMargin s =>
    cases h
    have hnonneg : 0 ≤ s.targetContracts capital := by
      unfold FixedSafetyMarginSizer.targetContracts
      dsimp only
      split
      · split <;> omega
      · split <;> omega
    exact_mod_cast hnonneg
  | inverseVolatility s =>
    have h : s.maxContracts.map (fun m : ℕ => (m : ℚ)) = some cap := h
    obtain ⟨m, -, rfl⟩ := Option.map_eq_some_iff.mp h
    exact Nat.cast_nonneg m

theorem PositionSizer.withinCap_zero (sizer : PositionSizer) (capital : ℚ) :
    sizer.withinCap capital 0 = 0 := by
  unfold withinCap
  split
  · rfl
  next cap hcap => exact min_eq_left (PositionSizer.maxPositionSize_nonneg hcap)

theorem PositionSizer.exists_maxPositionSize {sizer : PositionSizer} {price capital cap : ℚ}
    (h : sizer.maxPositionSize price capital = some cap) (capital' : ℚ) :
    ∃ cap', sizer.maxPositionSize price capital' = some cap' := by
  cases sizer with
  | fixedQuantity s => exact ⟨_, rfl⟩
  | fixedSafetyMargin s => exact ⟨_, rfl⟩
  | inverseVolatility s => exact ⟨cap, h⟩

/-- The cash of the deployment's account, the capital of a back-test with the same fills. -/
def Database.capital (db : Database) (id : ℕ) : ℚ :=
  ((db.getExecutionDeployment id).map (fun d => db.cash d.paperAccountId)).getD 0

/-- The cap at the account's cash is no less than the cap at the capital that the evaluator sizes
with. -/
def Funded (sizer : PositionSizer) (capital : ℚ) (id : ℕ) (db : Database) : Prop :=
  ∀ price cap cap', sizer.maxPositionSize price capital = some cap →
    sizer.maxPositionSize price (db.capital id) = some cap' → cap ≤ cap'

theorem funded_fixedQuantity (s : FixedQuantitySizer) (capital : ℚ) (id : ℕ) (db : Database) :
    Funded (.fixedQuantity s) capital id db := by
  intro price cap cap' hcap hcap'
  cases hcap
  cases hcap'
  exact le_rfl

/-- The live position respects the cap of the sizer after every event of a run in which no fill adds
to an open position and the account stays funded. Repeated entries of one side lead to the position
of the back-test if and only if what they ask for together is within the cap. -/
theorem live_sizing_within_cap (cfg : ServiceConfig) (sizer : PositionSizer) (capital : ℚ) (id : ℕ)
    (w : World) (hw : w.Fresh) (hflat : w.session.committed.holding id = .flat) :
    (∀ (before : List Event) (event : Event) (after : List Event),
      (∀ e ∈ before ++ event :: after, e.FillsAsOrdered ∧ e.SizedBy sizer capital id) →
      Admissible (step cfg) (fun w e => Funded sizer capital id w.session.working ∧
        NoAddition cfg id w e) w (before ++ event :: after) →
      let found := run (step cfg) w before
      ∀ price cap, sizer.maxPositionSize price (found.session.working.capital id) = some cap →
        |((step cfg found event).session.committed.holding id).signed| ≤ cap ∧
          |((step cfg found event).session.working.holding id).signed| ≤ cap) ∧
    ∀ side symbol (steps : List EntryStep),
      Admissible (EntryStep.execute cfg sizer capital)
        (fun state s => s.Filled cfg sizer capital id side symbol state) (w, []) steps →
      let final := run (EntryStep.execute cfg sizer capital) (w, []) steps
      |(final.1.session.working.holding id).signed| = requested sizer capital steps ∧
      (|(final.1.session.working.holding id).signed| = openQuantity final.2 symbol ↔
        ∀ price cap, sizer.maxPositionSize price capital = some cap →
          requested sizer capital steps ≤ cap) := by
  have hworking : w.session.working.holding id = .flat := by
    rw [hw.clean]
    exact hflat
  constructor
  · intro before event after hevents hadmissible found price cap hcap
    -- the invariant is the cap of the initial capital, with which every order is sized
    obtain ⟨first, hfirst⟩ := PositionSizer.exists_maxPositionSize hcap capital
    have hcommitted : w.session.committed.Capped id first := by
      refine ⟨?_, ?_, ?_⟩
      · rw [hflat]
        exact le_rfl
      · rw [hflat, show Holding.flat.signed = 0 from rfl, abs_zero]
        exact PositionSizer.maxPositionSize_nonneg hfirst
      · rw [hw.orders]
        simp
    have hstart : w.Both (·.Capped id first) := ⟨hcommitted, hw.clean ▸ hcommitted⟩
    have hfound : found.Both (·.Capped id first) ∧
        Funded sizer capital id found.session.working ∧ NoAddition cfg id found event := by
      clear hcommitted hworking hflat hw hcap
      induction before generalizing w with
      | nil => exact ⟨hstart, hadmissible.1⟩
      | cons e es ih =>
        have hsized := hevents e (by simp)
        exact ih _ (fun x hx => hevents x (List.mem_cons_of_mem e hx)) hadmissible.2
          (both_capped_step hfirst hsized.1 hsized.2 hadmissible.1.2 hstart)
    obtain ⟨hcapped, hfunded, hturn⟩ := hfound
    have hsized := hevents event (by simp)
    have hfinal := both_capped_step hfirst hsized.1 hsized.2 hturn hcapped
    have hle := hfunded price first cap hfirst hcap
    exact ⟨hfinal.committed.held.trans hle, hfinal.working.held.trans hle⟩
  · intro side symbol steps hsteps final
    have hstart : AddedUp sizer capital id side symbol 0 (w, []) := by
      refine ⟨?_, le_rfl, ?_, ?_⟩
      · show 0 ≤ (w.session.working.holding id).quantity
        rw [hworking]
        exact le_rfl
      · show (w.session.working.holding id).signed = signedQuantity side 0
        rw [hworking]
        cases side <;> simp [signedQuantity, Holding.signed, Holding.flat]
      · exact (PositionSizer.withinCap_zero sizer capital).symm
    have hfinal := addedUp_run hsteps hstart
    rw [zero_add] at hfinal
    have hlive : |(final.1.session.working.holding id).signed| = requested sizer capital steps := by
      rw [hfinal.live]
      have hnonneg := hfinal.asked_nonneg
      cases side with
      | buy => exact abs_of_nonneg hnonneg
      | sell =>
        rw [signedQuantity, abs_neg]
        exact abs_of_nonneg hnonneg
    refine ⟨hlive, ?_⟩
    rw [hlive, hfinal.tested]
    exact PositionSizer.eq_withinCap_iff

/-! ## A strategy that repeats its entry -/

def oneContract : PositionSizer := .fixedQuantity { quantity := 1, quantity_pos := one_pos }

/-- A strategy that asks to buy on every bar, sized to one contract. -/
def repeatingStrategy : TradingStrategy Unit where
  computeIndicators s bars := (s, .ok { bars })
  checkEntryConditions _ _ := .ok [{ symbol := "WIN", action := .buy }]
  checkExitConditions _ _ _ := .ok []
  sizeSignal signal row :=
    .ok (oneContract.sizeSignal signal ⟨row.bar.close, row.get "volatility"⟩ 100000)

/-- What the evaluator of the strategy decides on each bar. -/
def repeatedResult (barCloseTime : Time) : ForwardDecisionResult :=
  { barCloseTime, barClosePrice := 100, signalAction := .buy, reason := some "entry"
    requestedQuantity := some 1, queuedEntrySignals := [{ symbol := "WIN", action := .buy }] }

theorem oneContract_sizeSignal (bar : SizingBar) :
    oneContract.sizeSignal { symbol := "WIN", action := .buy } bar 100000 = some 1 := by
  simp [oneContract, PositionSizer.sizeSignal, FixedQuantitySizer.size]

theorem repeatedResult_evaluated (t : Time) : EvaluatedBy oneContract 100000 (repeatedResult t) := by
  let ev : Evaluator Unit := { symbol := "WIN", timeframe := "M1", windowBound := 20, strategy := () }
  let row : BarRow := { bar := { openTime := 0, open_ := 100, high := 101, low := 99, close := 100 } }
  refine ⟨Unit, repeatingStrategy, ev, _, row, t, ⟨fun _ _ => rfl, ?_⟩, rfl⟩
  intro s row entries hentries signal hsignal
  cases hentries
  rw [List.mem_singleton.mp hsignal]
  exact ⟨zero_le_one, le_rfl⟩

/-- The desk with its lease. -/
def leasedDesk : World := step {} (step {} deskWorld (.acquireLease 7 "token" 600000000 0)) .commit

def repeatedEntry (t : Time) : Event :=
  .processBar { deploymentId := 7, leaseToken := "token", result := repeatedResult t }
    (deskEnvironment t (fun _ => none))

def repeatedSteps : List EntryStep :=
  [60000000, 120000000].map (fun t =>
    { signal := { symbol := "WIN", action := .buy }, bar := { price := 101, timestamp := t }
      tradeId := toString t
      call := { deploymentId := 7, leaseToken := "token", result := repeatedResult t }
      env := deskEnvironment t (fun _ => none) })

/-- Two entries in a row: the live position is two contracts, over the cap of one, and the back-test
holds one. -/
theorem repeated_entries_exceed_cap :
    leasedDesk.Fresh ∧ leasedDesk.session.committed.holding 7 = .flat ∧
    (∀ e ∈ [repeatedEntry 60000000, repeatedEntry 120000000],
      e.FillsAsOrdered ∧ e.SizedBy oneContract 100000 7) ∧
    oneContract.maxPositionSize 100 100000 = some 1 ∧
    ¬ |((run (step {}) leasedDesk [repeatedEntry 60000000, repeatedEntry 120000000]
      ).session.committed.holding 7).signed| ≤ 1 ∧
    openQuantity (run (EntryStep.execute {} oneContract 100000) (leasedDesk, []) repeatedSteps).2 "WIN" =
      1 := by
  refine ⟨⟨rfl, rfl, rfl, rfl, rfl, rfl⟩, rfl, ?_, rfl, by decide +kernel, by decide +kernel⟩
  intro e he
  have hentry : ∃ t, e = repeatedEntry t := by
    simp only [List.mem_cons, List.not_mem_nil, or_false] at he
    rcases he with rfl | rfl
    · exact ⟨_, rfl⟩
    · exact ⟨_, rfl⟩
  obtain ⟨t, rfl⟩ := hentry
  exact ⟨fillsAsOrdered_paperBroker _ _, fun _ => .inr (repeatedResult_evaluated t)⟩

/-- An entry, a flatten and the next entry. -/
def flattenedRun : List Event :=
  [repeatedEntry 60000000, .processBar (flattenCall 7 "token" 120000000)
    (deskEnvironment 120000000 (fun _ => none)), repeatedEntry 180000000]

theorem noAddition_of_flat {cfg : ServiceConfig} {id : ℕ} {w : World} (call : BarCall)
    (env : BarEnvironment) (h : w.session.working.holding id = .flat) :
    NoAddition cfg id w (.processBar call env) := by
  intro _ _
  rw [h]
  exact ⟨fun _ => nofun, fun _ => nofun⟩

/-- With a flatten in between, both entries are within the cap, and the first is the position of the
back-test. -/
theorem live_sizing_within_cap_flattened :
    |((run (step {}) leasedDesk flattenedRun).session.committed.holding 7).signed| = 1 ∧
    |((run (step {}) leasedDesk flattenedRun).session.committed.holding 7).signed| ≤ 1 ∧
    |((run (EntryStep.execute {} oneContract 100000) (leasedDesk, [])
        (repeatedSteps.take 1)).1.session.working.holding 7).signed| =
      openQuantity (run (EntryStep.execute {} oneContract 100000) (leasedDesk, [])
        (repeatedSteps.take 1)).2 "WIN" := by
  have htheorem := live_sizing_within_cap {} oneContract 100000 7 leasedDesk
    ⟨rfl, rfl, rfl, rfl, rfl, rfl⟩ rfl
  refine ⟨by decide +kernel, ?_, ?_⟩
  · have hevents : ∀ e ∈ flattenedRun, e.FillsAsOrdered ∧ e.SizedBy oneContract 100000 7 := by
      intro e he
      simp only [flattenedRun, List.mem_cons, List.not_mem_nil, or_false] at he
      rcases he with rfl | rfl | rfl
      · exact ⟨fillsAsOrdered_paperBroker _ _, fun _ => .inr (repeatedResult_evaluated _)⟩
      · exact ⟨fillsAsOrdered_paperBroker _ _, fun _ => .inl rfl⟩
      · exact ⟨fillsAsOrdered_paperBroker _ _, fun _ => .inr (repeatedResult_evaluated _)⟩
    have hfunded : ∀ db, Funded oneContract 100000 7 db := funded_fixedQuantity _ _ _
    have hturn : Admissible (step {}) (fun w e => Funded oneContract 100000 7 w.session.working ∧
        NoAddition {} 7 w e) leasedDesk flattenedRun :=
      ⟨⟨hfunded _, noAddition_of_flat _ _ rfl⟩, ⟨hfunded _, fun _ => nofun⟩,
        ⟨hfunded _, noAddition_of_flat _ _ (by decide +kernel)⟩, trivial⟩
    exact (htheorem.1 (flattenedRun.take 2) (repeatedEntry 180000000) [] hevents hturn 100 1 rfl).1
  · have hfilled : Admissible (EntryStep.execute {} oneContract 100000) (fun state s =>
        s.Filled {} oneContract 100000 7 .buy "WIN" state) (leasedDesk, []) (repeatedSteps.take 1) := by
      refine ⟨⟨rfl, rfl, ⟨rfl, rfl⟩, ⟨zero_le_one, le_rfl⟩, (oneContract_sizeSignal _).symm, ?_, ?_⟩,
        trivial⟩
      · intro request sub fill hid hsub hfill
        cases hsub
        obtain ⟨-, -, hside, hquantity, -⟩ := paperSubmit_fill hfill
        exact ⟨hside, hquantity, List.not_mem_nil⟩
      · have hok : (processCompletedBar {} leasedDesk
            { deploymentId := 7, leaseToken := "token", result := repeatedResult 60000000 }
            (deskEnvironment 60000000 (fun _ => none))).2.toOption.map
              (fun r => (r.outcome, r.duplicate)) = some (.orderFilled, false) := by decide +kernel
        obtain ⟨r, hr, houtcome⟩ := Option.map_eq_some_iff.mp hok
        obtain ⟨r', hresult⟩ := exists_ok_of_isSome (Option.isSome_iff_exists.mpr ⟨r, hr⟩)
        rw [hresult] at hr
        cases hr
        exact ⟨_, r, Prod.ext rfl hresult, congrArg Prod.fst houtcome, congrArg Prod.snd houtcome⟩
    refine (htheorem.2 .buy "WIN" _ hfilled).2.mpr (fun price cap hcap => ?_)
    cases hcap
    have hasked : requested oneContract 100000 (repeatedSteps.take 1) = 1 := by
      rw [requested, repeatedSteps, List.map_cons, List.take_succ_cons, List.take_zero, List.map_singleton,
        oneContract_sizeSignal]
      simp
    exact hasked.le

end QBackend.Execution
