import QBackend.MetaTraderBroker
import Mathlib.Algebra.Order.BigOperators.Group.List

/-!
# Fills and lookups from the deal history

The fill of an order is made of the distinct deals that carry its intent. A lookup takes all of
them; a submission takes the one that the send result names. A lookup that finds none answers
NOT_FOUND, also when the history could not be read or does not reach back to the order.
-/

namespace QBackend.Execution

open FallibleSteps KeyedTables

/-! ## The tally of a list of deals -/

/-- The deals with a ticket that was not seen before. -/
def distinctDeals : List ℕ → List Mt5Deal → List Mt5Deal
  | _, [] => []
  | seen, deal :: rest =>
    if deal.ticket ∈ seen ∨ deal.ticket = 0 then distinctDeals seen rest
    else deal :: distinctDeals (seen ++ [deal.ticket]) rest

def totalVolume (deals : List Mt5Deal) : ℚ := (deals.map Mt5Deal.volume).sum

def totalNotional (deals : List Mt5Deal) : ℚ := (deals.map fun d => d.volume * d.price).sum

def latestTime (start : Time) (deals : List Mt5Deal) : Time :=
  deals.foldl (fun t d => max t d.at) start

/-- The loop of `_reconcile_fill` adds up the distinct deals. -/
theorem foldl_add (deals : List Mt5Deal) (tally : DealTally) :
    deals.foldl DealTally.add tally =
      { dealIds := tally.dealIds ++ (distinctDeals tally.dealIds deals).map Mt5Deal.ticket
        totalQty := tally.totalQty + totalVolume (distinctDeals tally.dealIds deals)
        notional := tally.notional + totalNotional (distinctDeals tally.dealIds deals)
        latestTime := latestTime tally.latestTime (distinctDeals tally.dealIds deals) } := by
  induction deals generalizing tally with
  | nil => simp [distinctDeals, totalVolume, totalNotional, latestTime]
  | cons deal rest ih =>
    rw [List.foldl_cons, ih]
    by_cases hseen : deal.ticket ∈ tally.dealIds ∨ deal.ticket = 0
    · rw [show tally.add deal = tally from if_pos hseen]
      simp only [distinctDeals, if_pos hseen]
    · rw [show tally.add deal = _ from if_neg hseen]
      simp only [distinctDeals, if_neg hseen, totalVolume, totalNotional, latestTime, List.map_cons,
        List.sum_cons, List.foldl_cons, List.append_assoc, List.singleton_append, DealTally.mk.injEq,
        true_and]
      exact ⟨by ring, by ring, trivial⟩

theorem mem_of_mem_distinctDeals {seen : List ℕ} {deals : List Mt5Deal} {d : Mt5Deal}
    (h : d ∈ distinctDeals seen deals) : d ∈ deals ∧ d.ticket ∉ seen := by
  induction deals generalizing seen with
  | nil => cases h
  | cons deal rest ih =>
    unfold distinctDeals at h
    split at h
    · obtain ⟨hmem, hseen⟩ := ih h
      exact ⟨List.mem_cons_of_mem _ hmem, hseen⟩
    next hnew =>
      rcases List.mem_cons.mp h with rfl | h
      · exact ⟨List.mem_cons_self, fun hseen => hnew (.inl hseen)⟩
      · obtain ⟨hmem, hseen⟩ := ih h
        exact ⟨List.mem_cons_of_mem _ hmem, fun hin => hseen (by simp [hin])⟩

theorem exists_mem_distinctDeals {seen : List ℕ} {deals : List Mt5Deal} {d : Mt5Deal}
    (h : d ∈ deals) (hzero : d.ticket ≠ 0) (hseen : d.ticket ∉ seen) :
    ∃ d' ∈ distinctDeals seen deals, d'.ticket = d.ticket := by
  induction deals generalizing seen with
  | nil => cases h
  | cons deal rest ih =>
    unfold distinctDeals
    split
    next hskip =>
      rcases List.mem_cons.mp h with rfl | h
      · exact absurd hskip (not_or.mpr ⟨hseen, hzero⟩)
      · exact ih h hseen
    next hnew =>
      by_cases heq : d.ticket = deal.ticket
      · exact ⟨deal, List.mem_cons_self, heq.symm⟩
      · have hrest : d ∈ rest := (List.mem_cons.mp h).resolve_left fun h => heq (h ▸ rfl)
        have hunseen : d.ticket ∉ seen ++ [deal.ticket] := by simpa [heq] using hseen
        obtain ⟨d', hd', hticket⟩ := ih hrest hunseen
        exact ⟨d', List.mem_cons_of_mem _ hd', hticket⟩

theorem distinctDeals_nodup (seen : List ℕ) (deals : List Mt5Deal) :
    ((distinctDeals seen deals).map Mt5Deal.ticket).Nodup := by
  induction deals generalizing seen with
  | nil => simp [distinctDeals]
  | cons deal rest ih =>
    unfold distinctDeals
    split
    · exact ih seen
    · rw [List.map_cons, List.nodup_cons]
      refine ⟨fun hmem => ?_, ih _⟩
      obtain ⟨d, hd, hticket⟩ := List.mem_map.mp hmem
      exact (mem_of_mem_distinctDeals hd).2 (by simp [hticket])

/-! ## The deals of an order -/

/-- The deals in a history that carry the intent of an order. -/
def intentDeals (b : MetaTraderBroker) (request : MarketOrderRequest) (deals : List Mt5Deal) :
    List Mt5Deal :=
  deals.filter (·.matchesIntent (b.magic request) (intentComment request.orderId))

/-- The distinct deals of some deals, in order of time. -/
def distinctByTime (deals : List Mt5Deal) : List Mt5Deal := distinctDeals [] (sortByTime deals)

theorem mem_sortByTime {d : Mt5Deal} {deals : List Mt5Deal} : d ∈ sortByTime deals ↔ d ∈ deals :=
  List.mem_insertionSort _

/-- The fill of some deals is that of the distinct ones. -/
theorem fillOfDeals_eq (request : MarketOrderRequest) (now : Time) (externalOrderId : Option String)
    (deals : List Mt5Deal) :
    fillOfDeals request now externalOrderId deals =
      if totalVolume (distinctByTime deals) ≤ 0 then none
      else some
        { fill :=
            { brokerMode := .mt5Live
              externalFillId := toString
                (((distinctByTime deals).map Mt5Deal.ticket).getLast?.getD 0)
              side := request.side, quantity := totalVolume (distinctByTime deals)
              price := totalNotional (distinctByTime deals) / totalVolume (distinctByTime deals)
              filledAt := latestTime now (distinctByTime deals) }
          externalOrderId, dealIds := (distinctByTime deals).map Mt5Deal.ticket } := by
  unfold fillOfDeals
  simp only [foldl_add, List.nil_append, zero_add]
  by_cases hnil : deals = []
  · subst hnil
    rfl
  · simp only [hnil, false_or]
    rfl

/-! ## Lookups -/

namespace MetaTraderBroker

variable (b : MetaTraderBroker) (request : MarketOrderRequest)

/-- The terminal can be asked. -/
def Reachable : Prop := b.runtime.isStub = false ∧ b.runtime.accountInfo.isSome = true

/-- What the history call of a lookup returns. -/
def history : Option (List Mt5Deal) :=
  b.runtime.historyDealsGet (b.now - b.reconcileLookback) b.now

/-- The look-back range includes a time. -/
def Covers (submittedAt : Time) : Prop :=
  b.now - b.reconcileLookback ≤ submittedAt ∧ submittedAt ≤ b.now

/-- The history was read for a range with the submission in it and shows no deal of the order. -/
def ShowsNoDeal (submittedAt : Time) : Prop :=
  ∃ deals, b.history = some deals ∧ b.Covers submittedAt ∧ intentDeals b request deals = []

theorem reconcileFill_eq (externalOrderId : Option String) :
    b.reconcileFill request externalOrderId =
      fillOfDeals request b.now externalOrderId (intentDeals b request (b.history.getD [])) := rfl

theorem lookupOrder_unreachable {b : MetaTraderBroker} (h : ¬ b.Reachable) :
    (b.lookupOrder request).status = .unavailable := by
  unfold lookupOrder
  split
  · rfl
  next hstub =>
    split
    · rfl
    next account haccount =>
      refine absurd ⟨by simpa using hstub, ?_⟩ h
      simp [haccount]

theorem lookupOrder_reachable {b : MetaTraderBroker} (h : b.Reachable) :
    b.lookupOrder request =
      match b.reconcileFill request none with
      | none => { status := .notFound, message := "no MT5 deal matches the intent magic/comment" }
      | some reconciled =>
        { status := .filled, fill := some reconciled.fill
          message := "reconciled from MT5 deal history" } := by
  obtain ⟨hstub, haccount⟩ := h
  obtain ⟨account, haccount⟩ := Option.isSome_iff_exists.mp haccount
  unfold lookupOrder
  rw [haccount]
  simp only [hstub]
  rfl

/-- A reachable terminal answers NOT_FOUND when the deals of the order add up to nothing. -/
theorem lookupOrder_notFound_iff {b : MetaTraderBroker} (h : b.Reachable) :
    (b.lookupOrder request).status = .notFound ↔
      totalVolume (distinctByTime (intentDeals b request (b.history.getD []))) ≤ 0 := by
  rw [lookupOrder_reachable request h, reconcileFill_eq, fillOfDeals_eq]
  split
  next hfill =>
    split at hfill
    next hle => simp [hle]
    · cases hfill
  next hfill =>
    split at hfill
    · cases hfill
    next hpos => simpa using hpos

end MetaTraderBroker

/-! ## What a pass makes of a lookup -/

/-- The status of an order. -/
def Database.statusOf (db : Database) (id : ℕ) : Option ExecutionOrderStatus :=
  (db.getExecutionOrder id).map ExecutionOrder.status

theorem statusOf_modifyOrder (db : Database) {id : ℕ} {f : ExecutionOrder → ExecutionOrder}
    (hf : ∀ o, (f o).id = o.id) :
    (db.modifyOrder id f).statusOf id = (db.getExecutionOrder id).map fun o => (f o).status := by
  unfold Database.statusOf Database.getExecutionOrder Database.modifyOrder
  rw [lookup_modify_self hf, Option.map_map]
  rfl

theorem statusOf_finalize {db db' : Database} {id : ℕ} {by_ : String} {detail : Option String}
    {at_ : Time} (h : db.finalizeOrderReconciliation id by_ detail at_ = .ok db') :
    db'.statusOf id = db.statusOf id := by
  obtain ⟨g, rfl, hg⟩ := finalizeOrderReconciliation_ok h
  rw [statusOf_modifyOrder db fun o => (hg o).2.1]
  unfold Database.statusOf
  congr 1
  funext o
  exact (hg o).2.2.1

theorem statusOf_recordDecisionOutcome {db db' : Database} {order : ExecutionOrder}
    {outcome : DecisionOutcome} (h : recordDecisionOutcome db order outcome = .ok db') (id : ℕ) :
    db'.statusOf id = db.statusOf id := by
  unfold Database.statusOf Database.getExecutionOrder
  rw [(frame_recordDecisionOutcome h).orders]

/-- The statuses that a lookup may lead an UNKNOWN order to. -/
def BrokerOrderLookupStatus.leadsTo : BrokerOrderLookupStatus → List ExecutionOrderStatus
  | .filled => [.filled, .unknown]
  | .rejected => [.rejected]
  | .notFound => [.rejected]
  | .unavailable => [.unknown]

/-- A pass over an UNKNOWN order: it is refused when the broker reports it rejected or not found,
and an unavailable broker leaves it UNKNOWN. -/
theorem reconcileOrder_status {cfg : ServiceConfig} {broker : ExecutionBroker} {now : Time}
    {db db' : Database} {order : ExecutionOrder} {deployment : ExecutionDeployment}
    {state : BrokerOrderState} {fillId : ℕ} {outcome : ReconciliationOutcome}
    (hunknown : db.statusOf order.id = some .unknown)
    (hstate : broker.lookupOrder (lookupRequestForOrder order deployment) = .ok state)
    (h : reconcileOrder cfg broker now db order deployment fillId = .ok (db', outcome)) :
    ∃ status ∈ state.status.leadsTo, db'.statusOf order.id = some status := by
  have hattempt : ∀ {error : String} {db' : Database},
      db.recordReconciliationAttempt order.id now error = .ok db' →
      db'.statusOf order.id = some .unknown := by
    intro error db' h
    unfold Database.recordReconciliationAttempt at h
    split at h
    · cases h
    · cases h
      rw [statusOf_modifyOrder]
      · exact hunknown
      · intro o
        rfl
  have hfailed : ∀ {reason detail : String} {db' : Database},
      applyFailedResolution db order autoActor (some detail) reason now = .ok db' →
      db'.statusOf order.id = some .rejected := by
    intro reason detail db' h
    simp only [applyFailedResolution, bind_eq_ok] at h
    obtain ⟨db₁, h₁, db₂, h₂, h₃⟩ := h
    obtain ⟨o, ho, -, rfl⟩ := transitionExecutionOrder_ok h₁
    rw [statusOf_recordDecisionOutcome h₃, statusOf_finalize h₂, statusOf_modifyOrder, ho]
    · rfl
    · intro o
      rfl
  simp only [reconcileOrder, bind_eq_ok] at h
  obtain ⟨state', hstate', h⟩ := h
  rw [hstate] at hstate'
  cases hstate'
  split at h
  next hstatus =>
    rw [hstatus]
    split at h
    · simp only [bind_eq_ok, pure_eq_ok, Prod.mk.injEq] at h
      obtain ⟨db₁, h₁, rfl, -⟩ := h
      exact ⟨.unknown, by simp [BrokerOrderLookupStatus.leadsTo], hattempt h₁⟩
    next fill hfill =>
      simp only [bind_eq_ok, pure_eq_ok, Prod.mk.injEq, applyFilledResolution] at h
      obtain ⟨db₁, ⟨⟨db₂, r⟩, h₂, db₃, h₃, h₄⟩, rfl, -⟩ := h
      rw [statusOf_recordDecisionOutcome h₄, statusOf_finalize h₃]
      rcases applyFill_ok h₂ with ⟨-, -, -, rfl⟩ | ⟨-, -, -, -, o, -, -, ho, -, rfl, -⟩
      · exact ⟨.unknown, by simp [BrokerOrderLookupStatus.leadsTo], hunknown⟩
      · refine ⟨.filled, by simp [BrokerOrderLookupStatus.leadsTo], ?_⟩
        have hsettled : (db.modifyOrder order.id
            (fillApplicationOf cfg deployment order.id fillId fill true now).settled).statusOf
              order.id = some .filled := by
          rw [statusOf_modifyOrder, show db.getExecutionOrder order.id = some o from ho]
          · rfl
          · intro o
            rfl
        exact hsettled
  all_goals
    simp only [bind_eq_ok, pure_eq_ok, Prod.mk.injEq] at h
    obtain ⟨db₁, h₁, rfl, -⟩ := h
  next hstatus => exact ⟨.rejected, by simp [hstatus, BrokerOrderLookupStatus.leadsTo], hfailed h₁⟩
  next hstatus => exact ⟨.rejected, by simp [hstatus, BrokerOrderLookupStatus.leadsTo], hfailed h₁⟩
  next hstatus => exact ⟨.unknown, by simp [hstatus, BrokerOrderLookupStatus.leadsTo], hattempt h₁⟩

/-- A lookup answers NOT_FOUND only on a history that was read and shows no deal of the order,
exactly when the terminal cannot be asked, or its history was read and holds a volume of the order
or, back to the submission, no deal of it. In a pass only NOT_FOUND refuses the order; an unavailable
terminal leaves it UNKNOWN. -/
theorem lookup_fails_closed_iff (b : MetaTraderBroker) (order : ExecutionOrder)
    (deployment : ExecutionDeployment) (submittedAt : Time) :
    (((b.lookupOrder (lookupRequestForOrder order deployment)).status = .notFound →
        b.ShowsNoDeal (lookupRequestForOrder order deployment) submittedAt) ↔
      (b.Reachable → ∃ deals, b.history = some deals ∧
        (0 < totalVolume (distinctByTime
            (intentDeals b (lookupRequestForOrder order deployment) deals)) ∨
          (b.Covers submittedAt ∧
            intentDeals b (lookupRequestForOrder order deployment) deals = [])))) ∧
    ∀ (cfg : ServiceConfig) (now : Time) (db db' : Database) (fillId : ℕ)
      (outcome : ReconciliationOutcome), db.statusOf order.id = some .unknown →
      reconcileOrder cfg b.toBroker now db order deployment fillId = .ok (db', outcome) →
      ∃ status ∈ (b.lookupOrder (lookupRequestForOrder order deployment)).status.leadsTo,
        db'.statusOf order.id = some status := by
  refine ⟨?_, fun cfg now db db' fillId outcome hunknown h =>
    reconcileOrder_status hunknown rfl h⟩
  generalize lookupRequestForOrder order deployment = request
  by_cases hreach : b.Reachable
  · rw [b.lookupOrder_notFound_iff request hreach]
    constructor
    · intro hhonest _
      cases hhistory : b.history with
      | none =>
        obtain ⟨deals, hdeals, -⟩ := hhonest (by rw [hhistory]; exact le_rfl)
        rw [hhistory] at hdeals
        cases hdeals
      | some deals =>
        refine ⟨deals, rfl, ?_⟩
        rw [hhistory] at hhonest
        by_cases hle : totalVolume (distinctByTime (intentDeals b request deals)) ≤ 0
        · obtain ⟨deals', hdeals', hcovers, hnone⟩ := hhonest hle
          rw [hhistory] at hdeals'
          cases hdeals'
          exact .inr ⟨hcovers, hnone⟩
        · exact .inl (not_le.mp hle)
    · intro hcond hle
      obtain ⟨deals, hdeals, hpos | ⟨hcovers, hnone⟩⟩ := hcond hreach
      · rw [hdeals] at hle
        exact absurd hle (not_le.mpr hpos)
      · exact ⟨deals, hdeals, hcovers, hnone⟩
  · refine iff_of_true (fun hnotFound => ?_) fun h => absurd h hreach
    rw [MetaTraderBroker.lookupOrder_unreachable request hreach] at hnotFound
    cases hnotFound

/-! ## Submissions against lookups -/

/-- The fill that the distinct deals of an order, in order of time, amount to. -/
structure IsFillOf (deals : List Mt5Deal) (fill : FillRecord) : Prop where
  quantity : fill.quantity = totalVolume deals
  price : fill.price = totalNotional deals / totalVolume deals
  externalFillId : fill.externalFillId = toString ((deals.map Mt5Deal.ticket).getLast?.getD 0)
  filledAt_le : ∀ d ∈ deals, d.at ≤ fill.filledAt
  filledAt_mem : ∃ d ∈ deals, fill.filledAt = d.at

/-- Both paths give the fill of the deals, and none without a deal. -/
def FillsAgree (deals : List Mt5Deal) (submitted lookedUp : Option FillRecord) : Prop :=
  (deals = [] ∧ submitted = none ∧ lookedUp = none) ∨
    ∃ x y, submitted = some x ∧ lookedUp = some y ∧ IsFillOf deals x ∧ IsFillOf deals y

/-- The deal that the send result names, on the path that reads it. -/
def namedDeal (send : Option Mt5SendResult) : Option ℕ :=
  send.bind fun s =>
    if isSuccessRetcode s.retcode = true ∧ s.deal ≠ 0 then some s.deal else none

/-- The send was not refused: no answer, an unknown outcome or a success. -/
def Sent (send : Option Mt5SendResult) : Prop :=
  ∀ s, send = some s → isUnknownRetcode s.retcode = true ∨ isSuccessRetcode s.retcode = true

/-- A ticket is a positive number that names one deal, and a deal has a volume. -/
structure TradeDeals (deals : List Mt5Deal) : Prop where
  ticket_ne : ∀ d ∈ deals, d.ticket ≠ 0
  volume_pos : ∀ d ∈ deals, 0 < d.volume
  unique : ∀ d ∈ deals, ∀ d' ∈ deals, d.ticket = d'.ticket → d = d'

section Deals

variable {deals : List Mt5Deal}

theorem le_latestTime (start : Time) (deals : List Mt5Deal) : start ≤ latestTime start deals := by
  induction deals generalizing start with
  | nil => exact le_rfl
  | cons d rest ih => exact (le_max_left _ _).trans (ih _)

theorem at_le_latestTime (start : Time) {d : Mt5Deal} (h : d ∈ deals) :
    d.at ≤ latestTime start deals := by
  induction deals generalizing start with
  | nil => cases h
  | cons e rest ih =>
    rcases List.mem_cons.mp h with rfl | h
    · exact (le_max_right _ _).trans (le_latestTime _ rest)
    · exact ih _ h

theorem latestTime_mem (start : Time) (deals : List Mt5Deal) :
    latestTime start deals = start ∨ ∃ d ∈ deals, latestTime start deals = d.at := by
  induction deals generalizing start with
  | nil => exact .inl rfl
  | cons e rest ih =>
    rcases ih (max start e.at) with heq | ⟨d, hd, heq⟩
    · rcases max_choice start e.at with hmax | hmax
      · exact .inl (heq.trans hmax)
      · exact .inr ⟨e, List.mem_cons_self, heq.trans hmax⟩
    · exact .inr ⟨d, List.mem_cons_of_mem _ hd, heq⟩

/-- The clock reading is the fill time unless a deal is at least as late. -/
theorem latestTime_is_deal_iff (now : Time) (deals : List Mt5Deal) :
    (∃ d ∈ deals, latestTime now deals = d.at) ↔ ∃ d ∈ deals, now ≤ d.at := by
  constructor
  · rintro ⟨d, hd, heq⟩
    exact ⟨d, hd, heq ▸ le_latestTime now deals⟩
  · rintro ⟨d, hd, hle⟩
    rcases latestTime_mem now deals with heq | hmem
    · refine ⟨d, hd, le_antisymm (heq.trans_le hle) (at_le_latestTime now hd)⟩
    · exact hmem

theorem fillOfDeals_isFillOf (request : MarketOrderRequest) (now : Time)
    (externalOrderId : Option String) (hpos : 0 < totalVolume (distinctByTime deals)) :
    ∃ fill, (fillOfDeals request now externalOrderId deals).map ReconciledFill.fill = some fill ∧
      fill.quantity = totalVolume (distinctByTime deals) ∧
      (IsFillOf (distinctByTime deals) fill ↔ ∃ d ∈ distinctByTime deals, now ≤ d.at) := by
  rw [fillOfDeals_eq, if_neg (not_le.mpr hpos)]
  refine ⟨_, rfl, rfl, ?_⟩
  rw [← latestTime_is_deal_iff]
  constructor
  · intro h
    exact h.filledAt_mem
  · intro h
    exact ⟨rfl, rfl, rfl, fun d hd => at_le_latestTime now hd, h⟩

theorem distinctByTime_sub {d : Mt5Deal} (h : d ∈ distinctByTime deals) : d ∈ deals :=
  mem_sortByTime.mp (mem_of_mem_distinctDeals h).1

theorem TradeDeals.exists_distinct (h : TradeDeals deals) {d : Mt5Deal} (hd : d ∈ deals) :
    d ∈ distinctByTime deals := by
  obtain ⟨d', hd', hticket⟩ := exists_mem_distinctDeals (mem_sortByTime.mpr hd) (h.ticket_ne d hd)
    (List.not_mem_nil)
  rw [h.unique d hd d' (distinctByTime_sub hd') hticket.symm]
  exact hd'

theorem TradeDeals.distinct_eq_nil (h : TradeDeals deals) : distinctByTime deals = [] ↔ deals = [] := by
  constructor
  · intro hnil
    refine List.eq_nil_iff_forall_not_mem.mpr fun d hd => ?_
    have hmem := h.exists_distinct hd
    rw [hnil] at hmem
    cases hmem
  · rintro rfl
    rfl

theorem TradeDeals.totalVolume_pos (h : TradeDeals deals) (hne : distinctByTime deals ≠ []) :
    0 < totalVolume (distinctByTime deals) := by
  refine List.sum_pos _ ?_ (by simpa using hne)
  intro v hv
  obtain ⟨d, hd, rfl⟩ := List.mem_map.mp hv
  exact h.volume_pos d (distinctByTime_sub hd)

theorem TradeDeals.volume_lt (h : TradeDeals deals) {d : Mt5Deal} (hd : d ∈ distinctByTime deals)
    (hlen : (distinctByTime deals).length ≠ 1) :
    d.volume < totalVolume (distinctByTime deals) := by
  have hrest : 0 < (((distinctByTime deals).erase d).map Mt5Deal.volume).sum := by
    refine List.sum_pos _ ?_ ?_
    · intro v hv
      obtain ⟨d', hd', rfl⟩ := List.mem_map.mp hv
      exact h.volume_pos d' (distinctByTime_sub (List.mem_of_mem_erase hd'))
    · intro hnil
      have hlength := congrArg List.length hnil
      rw [List.length_map, List.length_erase_of_mem hd, List.length_nil] at hlength
      have hpos := List.length_pos_of_mem hd
      omega
  unfold totalVolume
  rw [← List.sum_map_erase Mt5Deal.volume hd]
  linarith

theorem TradeDeals.named (h : TradeDeals deals) {ticket : ℕ}
    (hne : deals.filter (fun d => d.ticket = ticket) ≠ []) :
    ∃ d ∈ distinctByTime deals, d.ticket = ticket ∧
      distinctByTime (deals.filter (fun d => d.ticket = ticket)) = [d] := by
  obtain ⟨d, hd⟩ := List.exists_mem_of_ne_nil _ hne
  obtain ⟨hmem, hticket⟩ := List.mem_filter.mp hd
  rw [decide_eq_true_eq] at hticket
  refine ⟨d, h.exists_distinct hmem, hticket, ?_⟩
  have hall : ∀ d' ∈ distinctByTime (deals.filter fun d => d.ticket = ticket), d' = d := by
    intro d' hd'
    obtain ⟨hmem', hticket'⟩ := List.mem_filter.mp (distinctByTime_sub hd')
    rw [decide_eq_true_eq] at hticket'
    exact h.unique d' hmem' d hmem (hticket'.trans hticket.symm)
  have hnodup : (distinctByTime (deals.filter fun d => d.ticket = ticket)).Nodup :=
    (distinctDeals_nodup [] _).of_map
  obtain ⟨d', hd', -⟩ := exists_mem_distinctDeals (mem_sortByTime.mpr hd) (h.ticket_ne d hmem)
    (List.not_mem_nil)
  have hself : d ∈ distinctByTime (deals.filter fun d => d.ticket = ticket) := hall d' hd' ▸ hd'
  exact List.perm_singleton.mp
    ((List.perm_ext_iff_of_nodup hnodup (List.nodup_singleton d)).mpr fun d' =>
      ⟨fun hd' => by simp [hall d' hd'], fun hd' => by rwa [List.mem_singleton.mp hd']⟩)

end Deals

section Paths

variable {b b₁ b₂ : MetaTraderBroker} {deals : List Mt5Deal}

theorem lookupOrder_fill (request : MarketOrderRequest) (hreach : b.Reachable)
    (hhistory : b.history = some deals) :
    (b.lookupOrder request).fill =
      (fillOfDeals request b.now none (intentDeals b request deals)).map ReconciledFill.fill := by
  rw [b.lookupOrder_reachable request hreach, b.reconcileFill_eq, hhistory, Option.getD_some]
  cases fillOfDeals request b.now none (intentDeals b request deals) <;> rfl

theorem fillOfDeals_externalOrderId (request : MarketOrderRequest) (now : Time)
    (externalOrderId : Option String) (deals : List Mt5Deal) :
    (fillOfDeals request now externalOrderId deals).map ReconciledFill.fill =
      (fillOfDeals request now none deals).map ReconciledFill.fill := by
  rw [fillOfDeals_eq, fillOfDeals_eq]
  split <;> rfl

theorem recoverUnknown_fill (request : MarketOrderRequest) (externalOrderId : Option String)
    (hhistory : b.history = some deals) :
    (b.recoverUnknown request externalOrderId).fill =
        (fillOfDeals request b.now none (intentDeals b request deals)).map ReconciledFill.fill ∧
      ((b.recoverUnknown request externalOrderId).outcome = .filled ∨
        ((b.recoverUnknown request externalOrderId).outcome = .unknown ∧
          (b.recoverUnknown request externalOrderId).fill = none)) := by
  unfold MetaTraderBroker.recoverUnknown
  rw [b.reconcileFill_eq, hhistory, Option.getD_some,
    ← fillOfDeals_externalOrderId request b.now externalOrderId]
  cases fillOfDeals request b.now externalOrderId (intentDeals b request deals) with
  | none => exact ⟨rfl, .inr ⟨rfl, rfl⟩⟩
  | some reconciled => exact ⟨rfl, .inl rfl⟩

theorem not_success_of_unknown {retcode : ℤ} (h : isUnknownRetcode retcode = true) :
    isSuccessRetcode retcode = false := by
  unfold isUnknownRetcode at h
  unfold isSuccessRetcode
  rw [decide_eq_true_eq] at h
  rcases h with rfl | rfl <;> rfl

theorem settleSend_fill (request : MarketOrderRequest) {send : Option Mt5SendResult}
    (hsent : Sent send) (hhistory : b.history = some deals) :
    (b.settleSend request send).fill =
      (fillOfDeals request b.now none
        (restrictToDeal (namedDeal send) (intentDeals b request deals))).map ReconciledFill.fill := by
  cases send with
  | none =>
    obtain ⟨hfill, houtcome⟩ := recoverUnknown_fill request none hhistory
    unfold MetaTraderBroker.settleSend
    dsimp only
    split
    · exact hfill
    next hnot =>
      obtain ⟨-, hnone⟩ := houtcome.resolve_left hnot
      exact hnone.symm.trans hfill
  | some send =>
    unfold MetaTraderBroker.settleSend
    dsimp only
    generalize (if send.order = 0 then none else some (toString send.order)) = externalOrderId
    by_cases hunknown : isUnknownRetcode send.retcode = true
    · obtain ⟨hfill, houtcome⟩ := recoverUnknown_fill request externalOrderId hhistory
      have hnamed : namedDeal (some send) = none := by
        simp [namedDeal, not_success_of_unknown hunknown]
      rw [if_pos hunknown, hnamed]
      split
      · exact hfill
      next hnot =>
        rcases houtcome with houtcome | ⟨-, hnone⟩
        · simp [houtcome] at hnot
        · exact hnone.symm.trans hfill
    · have hsuccess : isSuccessRetcode send.retcode = true :=
        (hsent send rfl).resolve_left hunknown
      have hnamed : namedDeal (some send) = if send.deal = 0 then none else some send.deal := by
        unfold namedDeal
        by_cases hdeal : send.deal = 0 <;> simp [hsuccess, hdeal]
      rw [if_neg hunknown, if_neg (by simp [hsuccess]), hnamed]
      generalize (if send.deal = 0 then none else some send.deal) = named
      have hreconcile : b.reconcileFill request externalOrderId named =
          fillOfDeals request b.now externalOrderId
            (restrictToDeal named (intentDeals b request (b.history.getD []))) := rfl
      rw [hreconcile, hhistory, Option.getD_some,
        ← fillOfDeals_externalOrderId request b.now externalOrderId]
      cases fillOfDeals request b.now externalOrderId
        (restrictToDeal named (intentDeals b request deals)) <;> rfl

theorem restrictToDeal_cases (named : Option ℕ) (found : List Mt5Deal) :
    (restrictToDeal named found = found ∧
      ∀ ticket ∈ named, ¬ ∃ d ∈ found, d.ticket = ticket) ∨
    ∃ ticket ∈ named, found.filter (fun d => d.ticket = ticket) ≠ [] ∧
      restrictToDeal named found = found.filter (fun d => d.ticket = ticket) := by
  cases named with
  | none => exact .inl ⟨rfl, by simp⟩
  | some ticket =>
    cases hfilter : found.filter (fun d => d.ticket = ticket) with
    | nil =>
      refine .inl ⟨?_, ?_⟩
      · simp only [restrictToDeal, hfilter]
      · rintro t ht ⟨d, hd, hdt⟩
        cases ht
        have hmem : d ∈ found.filter (fun d => d.ticket = ticket) :=
          List.mem_filter.mpr ⟨hd, by simpa using hdt⟩
        rw [hfilter] at hmem
        cases hmem
    | cons d rest =>
      refine .inr ⟨ticket, rfl, by simp [hfilter], ?_⟩
      simp only [restrictToDeal, hfilter]

/-- On the same deal history, submission and lookup give the fill of all deals of the order exactly
when there is no such deal, or the send result names none of several deals and neither call came
after all of them. -/
theorem submit_and_lookup_agree_iff (b₁ b₂ : MetaTraderBroker) (request : MarketOrderRequest)
    (send : Option Mt5SendResult) (deals : List Mt5Deal) (hsent : Sent send)
    (hbase : b₁.magicBase = b₂.magicBase) (hreach : b₂.Reachable)
    (hhistory₁ : b₁.history = some deals) (hhistory₂ : b₂.history = some deals)
    (hdeals : TradeDeals (intentDeals b₁ request deals)) :
    FillsAgree (distinctByTime (intentDeals b₁ request deals)) (b₁.settleSend request send).fill
        (b₂.lookupOrder request).fill ↔
      intentDeals b₁ request deals = [] ∨
        ((∀ ticket ∈ namedDeal send, (∃ d ∈ intentDeals b₁ request deals, d.ticket = ticket) →
            (distinctByTime (intentDeals b₁ request deals)).length = 1) ∧
          (∃ d ∈ distinctByTime (intentDeals b₁ request deals), b₁.now ≤ d.at) ∧
          ∃ d ∈ distinctByTime (intentDeals b₁ request deals), b₂.now ≤ d.at) := by
  have hsame : intentDeals b₂ request deals = intentDeals b₁ request deals := by
    simp only [intentDeals, MetaTraderBroker.magic, hbase]
  rw [settleSend_fill request hsent hhistory₁, lookupOrder_fill request hreach hhistory₂, hsame]
  generalize intentDeals b₁ request deals = found at hdeals
  by_cases hnil : found = []
  · subst hnil
    refine iff_of_true (.inl ⟨rfl, ?_, rfl⟩) (.inl rfl)
    cases namedDeal send <;> rfl
  have hne : distinctByTime found ≠ [] := fun h => hnil (hdeals.distinct_eq_nil.mp h)
  have hpos := hdeals.totalVolume_pos hne
  obtain ⟨y, hy, -, hlate⟩ := fillOfDeals_isFillOf request b₂.now none hpos
  rw [hy, or_iff_right hnil]
  rcases restrictToDeal_cases (namedDeal send) found with
    ⟨hall, hunnamed⟩ | ⟨ticket, hticket, hchosen, honly⟩
  · rw [hall]
    obtain ⟨x, hx, -, hearly⟩ := fillOfDeals_isFillOf request b₁.now none hpos
    rw [hx, ← hearly, ← hlate]
    constructor
    · rintro (⟨hempty, -⟩ | ⟨x', y', hx', hy', hfillx, hfilly⟩)
      · exact absurd hempty hne
      · cases hx'
        cases hy'
        exact ⟨fun t ht hex => absurd hex (hunnamed t ht), hfillx, hfilly⟩
    · rintro ⟨-, hfillx, hfilly⟩
      exact .inr ⟨x, y, rfl, rfl, hfillx, hfilly⟩
  · obtain ⟨d, hd, hdticket, hdistinct⟩ := hdeals.named hchosen
    have hvolume : 0 < totalVolume (distinctByTime (found.filter fun d => d.ticket = ticket)) := by
      rw [hdistinct]
      simpa [totalVolume] using hdeals.volume_pos d (distinctByTime_sub hd)
    obtain ⟨x, hx, hquantity, hearly⟩ := fillOfDeals_isFillOf request b₁.now none hvolume
    rw [honly, hx]
    by_cases hlen : (distinctByTime found).length = 1
    · -- the named deal is the only one
      have hone : distinctByTime found = [d] := by
        obtain ⟨d', hd'⟩ := List.length_eq_one_iff.mp hlen
        rw [hd', List.mem_singleton] at hd
        rw [hd', hd]
      rw [hdistinct, ← hone] at hearly
      rw [← hearly, ← hlate]
      constructor
      · rintro (⟨hempty, -⟩ | ⟨x', y', hx', hy', hfillx, hfilly⟩)
        · exact absurd hempty hne
        · cases hx'
          cases hy'
          exact ⟨fun _ _ _ => hlen, hfillx, hfilly⟩
      · rintro ⟨-, hfillx, hfilly⟩
        exact .inr ⟨x, y, rfl, rfl, hfillx, hfilly⟩
    · refine iff_of_false ?_ fun h => hlen (h.1 ticket hticket ⟨d, distinctByTime_sub hd, hdticket⟩)
      rintro (⟨hempty, -⟩ | ⟨x', y', hx', -, hfillx, -⟩)
      · exact hne hempty
      · cases hx'
        have hlt := hdeals.volume_lt hd hlen
        rw [← hfillx.quantity, hquantity, hdistinct] at hlt
        simp [totalVolume] at hlt

end Paths

/-! ## An order, its terminal and its pass -/

/-- A connected terminal at an hour after the epoch, with the given answer of the deal history. -/
def liveBroker (history : Option (List Mt5Deal)) : MetaTraderBroker :=
  { runtime :=
      { accountInfo := some { login := 12345678 }, symbolInfoTick := fun _ => none
        orderCheck := fun _ => some 10009, orderSend := fun _ => none
        historyDealsGet := fun _ _ => history }
    now := 3600000000, gates := {} }

def liveDeployment : ExecutionDeployment :=
  { id := 2, paperAccountId := 1, brokerMode := .mt5Live, symbol := "WIN", timeframe := "M5" }

def unknownOrder : ExecutionOrder :=
  { id := 5, deploymentId := 2, decisionId := none, brokerMode := .mt5Live, side := .buy
    quantity := 2, status := .unknown, reconciliationState := .pending
    details := { barCloseTime := 0 } }

def liveDatabase : Database := { deployments := [liveDeployment], orders := [unknownOrder] }

/-- The request of a lookup of the order. -/
def liveRequest : MarketOrderRequest := lookupRequestForOrder unknownOrder liveDeployment

/-- The history call fails, the lookup answers NOT_FOUND all the same, and the pass refuses the
order. -/
theorem unread_history_rejects :
    ((liveBroker none).lookupOrder liveRequest).status = .notFound ∧
    ¬ (liveBroker none).ShowsNoDeal liveRequest 3599000000 ∧
    (reconcileOrder {} (liveBroker none).toBroker 3600000000 liveDatabase unknownOrder liveDeployment
      9).toOption.map (fun r => r.1.statusOf 5) = some (some .rejected) := by
  refine ⟨by decide +kernel, ?_, by decide +kernel⟩
  rintro ⟨deals, hdeals, -⟩
  cases hdeals

/-- The order was sent a second ago and its history was read: one deal of it is found. -/
theorem read_history_is_honest :
    ((liveBroker (some [{ ticket := 71, magic := 5, volume := 2, price := 10, time := 3600 }])
      ).lookupOrder liveRequest).status = .notFound →
    (liveBroker (some [{ ticket := 71, magic := 5, volume := 2, price := 10, time := 3600 }])
      ).ShowsNoDeal liveRequest 3599000000 := by
  refine (lookup_fails_closed_iff _ unknownOrder liveDeployment 3599000000).1.mpr fun _ => ?_
  exact ⟨_, rfl, .inl (by decide +kernel)⟩

/-- Two deals of one contract each, of which the send result names the first. -/
def partialDeals : List Mt5Deal :=
  [{ ticket := 71, magic := 5, volume := 1, price := 10, time := 3599 },
    { ticket := 72, magic := 5, volume := 1, price := 12, time := 3600 }]

theorem partialDeals_trade :
    TradeDeals (intentDeals (liveBroker (some partialDeals)) liveRequest partialDeals) := by
  have hall : intentDeals (liveBroker (some partialDeals)) liveRequest partialDeals =
      partialDeals := by decide +kernel
  rw [hall]
  constructor <;> decide +kernel

/-- Submission records one contract at 10, and the lookup two at 11. -/
theorem partial_fill_differs :
    ((liveBroker (some partialDeals)).settleSend liveRequest
      (some { retcode := 10010, order := 9001, deal := 71 })).fill.map
        (fun f => (f.quantity, f.price, f.externalFillId)) = some (1, 10, "71") ∧
    ((liveBroker (some partialDeals)).lookupOrder liveRequest).fill.map
        (fun f => (f.quantity, f.price, f.externalFillId)) = some (2, 11, "72") ∧
    ¬ FillsAgree (distinctByTime (intentDeals (liveBroker (some partialDeals)) liveRequest
        partialDeals))
      ((liveBroker (some partialDeals)).settleSend liveRequest
        (some { retcode := 10010, order := 9001, deal := 71 })).fill
      ((liveBroker (some partialDeals)).lookupOrder liveRequest).fill := by
  refine ⟨by decide +kernel, by decide +kernel, ?_⟩
  rintro (⟨hnil, -⟩ | ⟨x, y, hx, hy, hfillx, hfilly⟩)
  · revert hnil
    decide +kernel
  · have hsame : x.quantity = y.quantity := hfillx.quantity.trans hfilly.quantity.symm
    have hqx : some x.quantity = some 1 := by
      rw [show some x.quantity = (some x).map FillRecord.quantity from rfl, ← hx]
      decide +kernel
    have hqy : some y.quantity = some 2 := by
      rw [show some y.quantity = (some y).map FillRecord.quantity from rfl, ← hy]
      decide +kernel
    rw [hsame, hqy] at hqx
    cases hqx

/-- Without a named deal, and with the last deal at the time of both calls, the paths agree. -/
theorem unnamed_deals_agree :
    FillsAgree (distinctByTime (intentDeals (liveBroker (some partialDeals)) liveRequest
        partialDeals))
      ((liveBroker (some partialDeals)).settleSend liveRequest
        (some { retcode := 10009, order := 9001 })).fill
      ((liveBroker (some partialDeals)).lookupOrder liveRequest).fill := by
  refine (submit_and_lookup_agree_iff _ _ liveRequest (some { retcode := 10009, order := 9001 })
    partialDeals ?_ rfl ⟨rfl, rfl⟩ rfl rfl partialDeals_trade).mpr (.inr ⟨?_, ?_, ?_⟩)
  · rintro s hs
    cases hs
    exact .inr rfl
  · intro ticket hticket
    cases hticket
  · decide +kernel
  · decide +kernel

end QBackend.Execution
