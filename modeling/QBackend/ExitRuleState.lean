import QBackend.StrategyEvaluator
import QBackend.FallibleSteps

/-!
# What a decision reads

Two evaluations of a bar decide the same when their rows answer the strategy alike and their exit
states agree where an enabled rule keeps state. A rule without state decides from the row and the
trade alone.
-/

namespace QBackend.Execution

/-- The rules that carry something from one bar to the next. -/
def ExitRuleId.isStateful : ExitRuleId → Bool
  | .trailing | .chandelier | .breakeven | .psar | .profitTargetRatchet | .timeStop => true
  | _ => false

theorem ExitRuleId.shouldExit_of_not_stateful {rule : ExitRuleId} (h : rule.isStateful = false)
    (p : ExitParams) (trade : Trade) (row : BarRow) (s s' : RuleState) :
    rule.shouldExit p trade row s = rule.shouldExit p trade row s' := by
  cases rule <;> first | rfl | cases h

/-- The exit states agree on what the enabled rules remember of the trades. -/
def ExitState.Agree (p : ExitParams) (trades : List Trade) (state state' : ExitState) : Prop :=
  ∀ trade ∈ trades, ∀ rule ∈ enabledRules p, rule.isStateful = true →
    state trade.id rule = state' trade.id rule

/-- The rows look the same to every enabled rule. -/
def SameToRules (p : ExitParams) (trades : List Trade) (row row' : BarRow) : Prop :=
  ∀ trade ∈ trades, ∀ rule ∈ enabledRules p,
    columnsReady p row rule = columnsReady p row' rule ∧
    ∀ s, rule.onBar p trade row s = rule.onBar p trade row' s ∧
      rule.shouldExit p trade row s = rule.shouldExit p trade row' s

section Rules

variable {p : ExitParams} {trades : List Trade} {row row' : BarRow} {state state' : ExitState}

theorem ExitState.Agree.set (h : ExitState.Agree p trades state state') (id : String)
    {rule : ExitRuleId} {s s' : RuleState} (hs : rule.isStateful = true → s = s') :
    ExitState.Agree p trades (state.set id rule s) (state'.set id rule s') := by
  intro trade htrade rule' hrule' hstateful
  simp only [ExitState.set]
  split
  next heq =>
    obtain ⟨-, rfl⟩ := heq
    exact hs hstateful
  · exact h trade htrade rule' hrule' hstateful

/-- One trade: the induction is over the rules that were not tried yet. -/
theorem checkRules_agree (hrow : SameToRules p trades row row') {trade : Trade}
    (htrade : trade ∈ trades) {rules : List ExitRuleId} (hrules : ∀ r ∈ rules, r ∈ enabledRules p)
    (h : ExitState.Agree p trades state state') :
    ExitState.Agree p trades (checkRules p row trade rules state).1
      (checkRules p row' trade rules state').1 ∧
    (checkRules p row trade rules state).2 = (checkRules p row' trade rules state').2 := by
  induction rules generalizing state state' with
  | nil => exact ⟨h, rfl⟩
  | cons rule rest ih =>
    have hrule := hrules rule (by simp)
    obtain ⟨hready, hsame⟩ := hrow trade htrade rule hrule
    have hupdate : rule.isStateful = true → rule.onBar p trade row (state trade.id rule) =
        rule.onBar p trade row' (state' trade.id rule) := by
      intro hstateful
      rw [h trade htrade rule hrule hstateful, (hsame _).1]
    have hset := h.set trade.id hupdate
    have hexit : rule.shouldExit p trade row (rule.onBar p trade row (state trade.id rule)) =
        rule.shouldExit p trade row' (rule.onBar p trade row' (state' trade.id rule)) := by
      rw [(hsame _).2]
      cases hstateful : rule.isStateful with
      | true => rw [hupdate hstateful]
      | false => exact ExitRuleId.shouldExit_of_not_stateful hstateful p trade row' _ _
    unfold checkRules
    dsimp only
    rw [hready, hexit]
    split
    · exact ⟨hset, rfl⟩
    · exact ih (fun r hr => hrules r (List.mem_cons_of_mem rule hr)) hset

theorem checkTrades_agree (hrow : SameToRules p trades row row') {rest : List Trade}
    (hrest : ∀ t ∈ rest, t ∈ trades) (h : ExitState.Agree p trades state state') :
    ExitState.Agree p trades (checkTrades p row rest state).1 (checkTrades p row' rest state').1 ∧
    (checkTrades p row rest state).2 = (checkTrades p row' rest state').2 := by
  induction rest generalizing state state' with
  | nil => exact ⟨h, rfl⟩
  | cons trade rest ih =>
    obtain ⟨hstate, hsignal⟩ := checkRules_agree hrow (hrest trade (by simp)) (fun _ hr => hr) h
    obtain ⟨hstates, hsignals⟩ := ih (fun t ht => hrest t (List.mem_cons_of_mem trade ht)) hstate
    simp only [checkTrades]
    exact ⟨hstates, by rw [hsignal, hsignals]⟩

theorem checkExits_agree (hrow : SameToRules p trades row row')
    (h : ExitState.Agree p trades state state') :
    ExitState.Agree p trades (checkExits p trades row state).1 (checkExits p trades row' state').1 ∧
    (checkExits p trades row state).2 = (checkExits p trades row' state').2 := by
  refine checkTrades_agree hrow (fun _ ht => ht) (fun trade htrade rule hrule hstateful => ?_)
  have hid : trade.id ∈ trades.map Trade.id := List.mem_map_of_mem htrade
  simp only [pruneStaleState, if_pos hid]
  exact h trade htrade rule hrule hstateful

theorem ExitState.Agree.of_stateless (h : ∀ rule ∈ enabledRules p, rule.isStateful = false) :
    ExitState.Agree p trades state state' := by
  intro trade _ rule hrule hstateful
  rw [h rule hrule] at hstateful
  cases hstateful

theorem ExitState.Agree.of_flat : ExitState.Agree p [] state state' := by
  intro trade htrade
  cases htrade

end Rules

/-! ## Rows -/

section Rows

variable {S : Type} {strategy : TradingStrategy S}

/-- The answers of a strategy do not depend on what its object went through. -/
structure TradingStrategy.Stateless (strategy : TradingStrategy S) : Prop where
  indicators : ∀ s s' bars, (strategy.computeIndicators s bars).2 = (strategy.computeIndicators s' bars).2
  entries : ∀ s s' row, strategy.checkEntryConditions s row = strategy.checkEntryConditions s' row
  exits : ∀ s s' row trades,
    strategy.checkExitConditions s row trades = strategy.checkExitConditions s' row trades

theorem TradingStrategy.Stateless.augment (h : strategy.Stateless) (s s' : S) (bars : List Bar) :
    (augmentIndicatorFrame strategy s bars).2 = (augmentIndicatorFrame strategy s' bars).2 := by
  simp only [augmentIndicatorFrame, h.indicators s s' bars]

/-- The rows get the same answers from the strategy, its sizer and the exit rules. -/
structure RowsAgree (strategy : TradingStrategy S) (s : S) (trades : List Trade)
    (row row' : BarRow) : Prop where
  close : row.bar.close = row'.bar.close
  entries : strategy.checkEntryConditions s row = strategy.checkEntryConditions s row'
  exits : ∀ ts, strategy.checkExitConditions s row ts = strategy.checkExitConditions s row' ts
  sizing : ∀ signal, strategy.sizeSignal signal row = strategy.sizeSignal signal row'
  rules : SameToRules strategy.exitParams trades row row'

/-- No exception is raised on the row. -/
structure RowDecides (strategy : TradingStrategy S) (s : S) (row : BarRow) : Prop where
  entries : ∃ signals, strategy.checkEntryConditions s row = .ok signals
  exits : ∀ ts, ∃ signals, strategy.checkExitConditions s row ts = .ok signals
  sizing : ∀ signal, ∃ quantity, strategy.sizeSignal signal row = .ok quantity

end Rows

end QBackend.Execution
