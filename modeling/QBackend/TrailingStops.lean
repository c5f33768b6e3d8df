import QBackend.ExitRules
import Mathlib.Data.List.Find
import Mathlib.Data.List.Induction
import Mathlib.Data.List.Nodup
import Mathlib.Algebra.Order.Group.MinMax
import Mathlib.Tactic.Linarith
import Mathlib.Tactic.Ring

/-!
# Trailing stops

Four rules trail a stop behind the trade. The percent stop, the armed ratchet and the parabolic SAR
keep an extreme or the level itself, which never loosens. The chandelier takes the volatility of
each bar anew, so that its level follows the volatility. The parabolic SAR of the first bar is
seeded from that bar, and the same bar is then compared with it.
-/

namespace QBackend.Execution

/-! ## Bars of one trade -/

section Bars

variable (p : ExitParams) (trade : Trade)

/-- The dictionary of a rule after bars that it saw in order. -/
def ExitRuleId.stateAfter (rule : ExitRuleId) (rows : List BarRow) : RuleState :=
  rows.foldl (fun s row => rule.onBar p trade row s) {}

/-- The rule closes the trade on the bar. -/
def ExitRuleId.signals (rule : ExitRuleId) (row : BarRow) (s : RuleState) : Bool :=
  columnsReady p row rule && rule.shouldExit p trade row s

/-- The rule closes the trade on a bar of the sequence. -/
def ExitRuleId.signalsAt (rule : ExitRuleId) (rows : List BarRow) (i : ℕ) : Bool :=
  rows[i]?.any (fun row => rule.signals p trade row (rule.stateAfter p trade (rows.take (i + 1))))

/-- The level that a trailing rule compares the bar with. -/
def ExitRuleId.stopLevel (row : BarRow) (s : RuleState) : ExitRuleId → Option ℚ
  | .trailing =>
    let seen := s.extreme.getD trade.entryPrice
    some (if trade.isLong then seen * (1 - p.trailingStopPct) else seen * (1 + p.trailingStopPct))
  | .chandelier =>
    let peak := s.peak.getD trade.entryPrice
    (row.get (ExitColumn.atr p.atrPeriod).name).map (fun atr =>
      if trade.isLong then peak - p.chandelierAtrMult * atr else peak + p.chandelierAtrMult * atr)
  | .profitTargetRatchet => if s.armed then s.ratchet else none
  | .psar => s.psar.map PsarState.sar
  | _ => none

def ExitRuleId.levelAt (rule : ExitRuleId) (rows : List BarRow) (i : ℕ) : Option ℚ :=
  rows[i]?.bind (fun row =>
    rule.stopLevel p trade row (rule.stateAfter p trade (rows.take (i + 1))))

end Bars

/-- The rules that trail a stop. -/
def trailingRules : List ExitRuleId := [.trailing, .chandelier, .profitTargetRatchet, .psar]

section Levels

variable {p : ExitParams} {trade : Trade} {rule : ExitRuleId} {row row' : BarRow} {s : RuleState}
  {rows : List BarRow}

@[simp] theorem stateAfter_append (rows : List BarRow) (row : BarRow) :
    rule.stateAfter p trade (rows ++ [row]) =
      rule.onBar p trade row (rule.stateAfter p trade rows) := by
  simp [ExitRuleId.stateAfter]

theorem stateAfter_take_succ {i : ℕ} (h : rows[i]? = some row) :
    rule.stateAfter p trade (rows.take (i + 1)) =
      rule.onBar p trade row (rule.stateAfter p trade (rows.take i)) := by
  rw [List.take_add_one, h, Option.toList_some, stateAfter_append]

theorem signals_eq_false : rule.signals p trade row s = false ↔
    ¬ (columnsReady p row rule = true ∧ rule.shouldExit p trade row s = true) := by
  rw [ExitRuleId.signals, ← Bool.not_eq_true, Bool.and_eq_true]

theorem signalsAt_append {i : ℕ} (hi : i < rows.length) :
    rule.signalsAt p trade (rows ++ [row]) i = rule.signalsAt p trade rows i := by
  rw [ExitRuleId.signalsAt, ExitRuleId.signalsAt, List.getElem?_append_left hi,
    List.take_append_of_le_length hi]

theorem signalsAt_concat : rule.signalsAt p trade (rows ++ [row]) rows.length =
    rule.signals p trade row (rule.stateAfter p trade (rows ++ [row])) := by
  rw [ExitRuleId.signalsAt, List.getElem?_concat_length, Option.any_some,
    List.take_of_length_le (by simp)]

end Levels

/-! ## The loop over the rules -/

section Loop

variable {p : ExitParams} {trade : Trade} {row : BarRow} {state : ExitState}

@[simp] theorem ExitState.set_self (state : ExitState) (id : String) (rule : ExitRuleId)
    (s : RuleState) : state.set id rule s id rule = s := by
  simp [ExitState.set]

theorem ExitState.set_of_ne {rule rule' : ExitRuleId} (h : rule' ≠ rule) (state : ExitState)
    (id : String) (s : RuleState) : state.set id rule s id rule' = state id rule' := by
  simp [ExitState.set, h]

theorem checkRules_of_notMem {rules : List ExitRuleId} {rule : ExitRuleId} (h : rule ∉ rules) :
    (checkRules p row trade rules state).1 trade.id rule = state trade.id rule := by
  induction rules generalizing state with
  | nil => rfl
  | cons first rest ih =>
    have hne : rule ≠ first := fun heq => h (heq ▸ List.mem_cons_self)
    have hrest : rule ∉ rest := fun hmem => h (List.mem_cons_of_mem _ hmem)
    rw [checkRules]
    split
    · exact ExitState.set_of_ne hne _ _ _
    · rw [ih hrest, ExitState.set_of_ne hne]

theorem checkRules_quiet {rules : List ExitRuleId} (hnodup : rules.Nodup)
    (h : (checkRules p row trade rules state).2 = none) :
    ∀ rule ∈ rules, (checkRules p row trade rules state).1 trade.id rule =
        rule.onBar p trade row (state trade.id rule) ∧
      rule.signals p trade row (rule.onBar p trade row (state trade.id rule)) = false := by
  induction rules generalizing state with
  | nil => exact fun rule hrule => absurd hrule List.not_mem_nil
  | cons first rest ih =>
    obtain ⟨hfirst, hrest⟩ := List.nodup_cons.mp hnodup
    rw [checkRules] at h ⊢
    split at h
    · cases h
    next hquiet =>
      rw [if_neg hquiet]
      intro rule hrule
      rcases List.mem_cons.mp hrule with rfl | hrule
      · rw [checkRules_of_notMem hfirst]
        exact ⟨ExitState.set_self _ _ _ _, signals_eq_false.mpr hquiet⟩
      · have hne : rule ≠ first := fun heq => hfirst (heq ▸ hrule)
        have hnext := ih hrest h rule hrule
        rwa [ExitState.set_of_ne hne] at hnext

theorem checkRules_eq_find? {rules : List ExitRuleId} (hnodup : rules.Nodup) :
    (checkRules p row trade rules state).2 =
      (rules.find? (fun rule =>
        rule.signals p trade row (rule.onBar p trade row (state trade.id rule)))).map (fun rule =>
          { symbol := trade.symbol, action := .close, exitReason := some rule.value }) := by
  induction rules generalizing state with
  | nil => rfl
  | cons first rest ih =>
    obtain ⟨hfirst, hrest⟩ := List.nodup_cons.mp hnodup
    rw [checkRules, List.find?_cons]
    split
    next hfires =>
      rw [ExitRuleId.signals, hfires.1, hfires.2]
      rfl
    next hquiet =>
      rw [signals_eq_false.mpr hquiet, ih hrest]
      refine congrArg (Option.map _) (List.find?_congr fun rule hrule => ?_)
      have hne : rule ≠ first := fun heq => hfirst (heq ▸ hrule)
      rw [ExitState.set_of_ne hne]

theorem nodup_enabledRules (p : ExitParams) : (enabledRules p).Nodup :=
  List.Nodup.filter _ (by decide)

theorem pruneStaleState_self (trade : Trade) (state : ExitState) :
    pruneStaleState [trade] state trade.id = state trade.id := by
  funext rule
  simp [pruneStaleState]

/-- The state of `check_exits` over bars on which the trade stays open. -/
def exitStateAfter (p : ExitParams) (trade : Trade) (rows : List BarRow) : ExitState :=
  rows.foldl (fun state row => (checkExits p [trade] row state).1) ExitState.empty

/-- `check_exits` left the trade open on each of the bars. -/
def StaysOpen (p : ExitParams) (trade : Trade) (rows : List BarRow) : Prop :=
  ∀ before row, before ++ [row] <+: rows →
    (checkExits p [trade] row (exitStateAfter p trade before)).2 = []

theorem StaysOpen.of_append {rows : List BarRow} (h : StaysOpen p trade (rows ++ [row])) :
    StaysOpen p trade rows :=
  fun before row' hpre => h before row' (hpre.trans (List.prefix_append _ _))

/-- While the trade is open, all bars make the dictionary of an enabled rule and the rule is silent
on each of them. -/
theorem StaysOpen.stateAfter_eq {rows : List BarRow} (h : StaysOpen p trade rows) :
    ∀ rule ∈ enabledRules p,
      exitStateAfter p trade rows trade.id rule = rule.stateAfter p trade rows ∧
        ∀ i < rows.length, rule.signalsAt p trade rows i = false := by
  induction rows using List.reverseRecOn with
  | nil => exact fun _ _ => ⟨rfl, fun i hi => absurd hi (Nat.not_lt_zero i)⟩
  | append_singleton rows row ih =>
    have hlast := h rows row (List.prefix_refl _)
    intro rule hrule
    obtain ⟨hbefore, hsilent⟩ := ih h.of_append rule hrule
    have hstep : exitStateAfter p trade (rows ++ [row]) =
        (checkExits p [trade] row (exitStateAfter p trade rows)).1 := by
      simp [exitStateAfter]
    simp only [checkExits, checkTrades, List.append_nil, Option.toList_eq_nil_iff] at hlast
    obtain ⟨hstate, hquiet⟩ := checkRules_quiet (nodup_enabledRules p) hlast rule hrule
    rw [pruneStaleState_self, hbefore] at hstate hquiet
    constructor
    · rw [hstep, stateAfter_append, ← hstate]
      rfl
    · intro i hi
      rw [List.length_append, List.length_singleton] at hi
      obtain hlt | rfl := Nat.lt_succ_iff_lt_or_eq.mp hi
      · rw [signalsAt_append hlt]
        exact hsilent i hlt
      · rw [signalsAt_concat, stateAfter_append]
        exact hquiet

/-- The signal of the first rule, in the order of the registry, that fires on the dictionary it
has built by itself. -/
def firstExit (p : ExitParams) (trade : Trade) (rows : List BarRow) (row : BarRow) :
    Option Signal :=
  ((enabledRules p).find? (fun rule =>
    rule.signals p trade row (rule.stateAfter p trade (rows ++ [row])))).map (fun rule =>
      { symbol := trade.symbol, action := .close, exitReason := some rule.value })

theorem StaysOpen.checkExits_eq (h : StaysOpen p trade rows) (row : BarRow) :
    (checkExits p [trade] row (exitStateAfter p trade rows)).2 =
      (firstExit p trade rows row).toList := by
  simp only [checkExits, checkTrades, List.append_nil, firstExit]
  rw [checkRules_eq_find? (nodup_enabledRules p)]
  refine congrArg (fun rule => (Option.map _ rule).toList) (List.find?_congr fun rule hrule => ?_)
  rw [stateAfter_append, ← (h.stateAfter_eq rule hrule).1, pruneStaleState_self]

end Loop

/-- While no enabled rule fires that follows the trade alone, `check_exits` leaves it open, and the
next bar closes it exactly when one fires there: the first of them gives the reason. -/
theorem first_lone_rule_closes (p : ExitParams) (trade : Trade) (rows : List BarRow) (row : BarRow)
    (hsilent : ∀ rule ∈ enabledRules p, ∀ i < rows.length,
      rule.signalsAt p trade rows i = false) :
    StaysOpen p trade rows ∧ (checkExits p [trade] row (exitStateAfter p trade rows)).2 =
      (firstExit p trade rows row).toList := by
  suffices hopen : StaysOpen p trade rows from ⟨hopen, hopen.checkExits_eq row⟩
  induction rows using List.reverseRecOn with
  | nil => exact fun before row' hpre => absurd (List.prefix_nil.mp hpre) (by simp)
  | append_singleton rows row' ih =>
    have hopen : StaysOpen p trade rows := ih fun rule hrule i hi => by
      rw [← signalsAt_append hi]
      exact hsilent rule hrule i (by simp; omega)
    intro before last hpre
    obtain heq | hpre := List.prefix_concat_iff.mp hpre
    · obtain ⟨rfl, hlast⟩ := List.append_inj' heq rfl
      obtain rfl : last = row' := by simpa using hlast
      rw [hopen.checkExits_eq, firstExit, List.find?_eq_none.mpr]
      · rfl
      · intro rule hrule
        rw [← signalsAt_concat, hsilent rule hrule _ (by simp)]
        exact Bool.false_ne_true
    · exact hopen before last hpre

def trailedTrade : Trade :=
  { id := "t1", symbol := "WIN", action := .buy, quantity := 1, entryTime := 0, entryPrice := 100 }

def trailedRow (minute : ℤ) (high low : ℚ) (atr : Option ℚ) : BarRow where
  bar := { openTime := minute * 60000000, open_ := low, high, low, close := high }
  columns := [("atr_14", atr)]

def agedParams : ExitParams := { chandelierAtrMult := 3, maxBarsInTrade := 2 }

/-- A trade that no stop has reached is closed on its second bar, for its age. -/
theorem first_lone_rule_closes_aged :
    StaysOpen agedParams trailedTrade [trailedRow 0 101 100 (some 1)] ∧
      (checkExits agedParams [trailedTrade] (trailedRow 1 101 100 (some 1))
        (exitStateAfter agedParams trailedTrade [trailedRow 0 101 100 (some 1)])).2 =
          [{ symbol := "WIN", action := .close, exitReason := some "time_stop" }] := by
  have h := first_lone_rule_closes agedParams trailedTrade [trailedRow 0 101 100 (some 1)]
    (trailedRow 1 101 100 (some 1)) (by decide +kernel)
  exact ⟨h.1, h.2.trans (by decide +kernel)⟩

/-! ## Reflected prices

A short trade is a long trade at reflected prices. -/

def Bar.mirror (bar : Bar) : Bar :=
  { bar with open_ := -bar.open_, high := -bar.low, low := -bar.high, close := -bar.close }

def BarRow.mirror (row : BarRow) : BarRow := { row with bar := row.bar.mirror }

def PsarState.mirror (q : PsarState) : PsarState where
  sar := -q.sar
  ep := -q.ep
  af := q.af
  priorLow := q.priorHigh.map Neg.neg
  priorPriorLow := q.priorPriorHigh.map Neg.neg
  priorHigh := q.priorLow.map Neg.neg
  priorPriorHigh := q.priorPriorLow.map Neg.neg

namespace Trade

/-- `l'` is no further from the price than `l`. -/
def Tighter (trade : Trade) (l l' : ℚ) : Prop := if trade.isLong then l ≤ l' else l' ≤ l

/-- The level at a distance from `l`, on the side of the price. -/
def closer (trade : Trade) (l distance : ℚ) : ℚ :=
  if trade.isLong then l + distance else l - distance

/-- The trade as the long side sees it. -/
def upright (trade : Trade) : Trade :=
  if trade.isLong then trade else { trade with action := .buy, entryPrice := -trade.entryPrice }

def uprightRow (trade : Trade) (row : BarRow) : BarRow :=
  if trade.isLong then row else row.mirror

def uprightPsar (trade : Trade) (q : PsarState) : PsarState :=
  if trade.isLong then q else q.mirror

end Trade

section Mirror

variable {p : ExitParams} {trade : Trade} {row : BarRow} {s : RuleState} {l l' l'' : ℚ}

theorem Trade.Tighter.refl (trade : Trade) (l : ℚ) : trade.Tighter l l := by
  unfold Tighter
  split <;> exact le_rfl

theorem Trade.Tighter.trans (h : trade.Tighter l l') (h' : trade.Tighter l' l'') :
    trade.Tighter l l'' := by
  unfold Tighter at *
  split
  next hlong =>
    rw [if_pos hlong] at h h'
    exact h.trans h'
  next hshort =>
    rw [if_neg hshort] at h h'
    exact h'.trans h

theorem Trade.uprightPsar_sar_le {q q' : PsarState} :
    (trade.uprightPsar q).sar ≤ (trade.uprightPsar q').sar ↔ trade.Tighter q.sar q'.sar := by
  unfold uprightPsar Tighter
  split
  · exact Iff.rfl
  · exact neg_le_neg_iff

theorem clampPsarLong_neg (sar : ℚ) (priorHigh priorPriorHigh : Option ℚ) :
    clampPsarLong (-sar) (priorHigh.map Neg.neg) (priorPriorHigh.map Neg.neg) =
      -clampPsarShort sar priorHigh priorPriorHigh := by
  cases priorHigh <;> cases priorPriorHigh <;>
    simp [clampPsarLong, clampPsarShort, min_neg_neg]

/-- The update of a short trade is the update of the long one at reflected prices. -/
theorem updatePsarShort_mirror (state : Option PsarState) (hshort : trade.isLong = false) :
    (updatePsarShort p trade row state).mirror =
      updatePsarLong p trade.upright row.mirror (state.map PsarState.mirror) := by
  cases state with
  | none =>
    simp [updatePsarShort, updatePsarLong, PsarState.mirror, Trade.upright, hshort, BarRow.mirror,
      Bar.mirror, min_neg_neg, max_neg_neg]
  | some q =>
    have hstep : -(q.sar + q.af * (q.ep - q.sar)) = -q.sar + q.af * (-q.ep - -q.sar) := by ring
    have hclamp := clampPsarLong_neg (q.sar + q.af * (q.ep - q.sar)) q.priorHigh q.priorPriorHigh
    rw [hstep] at hclamp
    simp only [updatePsarShort, updatePsarLong, PsarState.mirror, Option.map_some, BarRow.mirror,
      Bar.mirror, neg_lt_neg_iff, hclamp]
    split <;> simp

theorem onBar_psar_upright (p : ExitParams) (trade : Trade) (row : BarRow) (s : RuleState) :
    (ExitRuleId.psar.onBar p trade row s).psar.map trade.uprightPsar =
      some (updatePsarLong p trade.upright (trade.uprightRow row)
        (s.psar.map trade.uprightPsar)) := by
  cases hlong : trade.isLong with
  | true =>
    have hid : trade.uprightPsar = id := by
      funext q
      simp [Trade.uprightPsar, hlong]
    simp [ExitRuleId.onBar, hid, Trade.upright, Trade.uprightRow, hlong]
  | false =>
    have hmirror : trade.uprightPsar = PsarState.mirror := by
      funext q
      simp [Trade.uprightPsar, hlong]
    simp [ExitRuleId.onBar, hmirror, Trade.uprightRow, hlong, updatePsarShort_mirror]

theorem hitsStop_upright {q : PsarState} : hitsStop trade row q.sar q.sar = true ↔
    (trade.uprightRow row).bar.low ≤ (trade.uprightPsar q).sar := by
  cases hlong : trade.isLong <;>
    simp [hitsStop, Trade.uprightRow, Trade.uprightPsar, hlong, BarRow.mirror, Bar.mirror,
      PsarState.mirror]

end Mirror

/-! ## Levels never loosen -/

/-- The ranges that the specifications of the rules declare. -/
structure ExitParams.Declared (p : ExitParams) : Prop where
  trailingStopPct : 0 ≤ p.trailingStopPct ∧ p.trailingStopPct ≤ 1 / 2
  psarAfStart : 0 ≤ p.psarAfStart ∧ p.psarAfStart ≤ 1 / 10
  psarAfStep : 0 ≤ p.psarAfStep ∧ p.psarAfStep ≤ 1 / 10
  psarAfMax : 0 ≤ p.psarAfMax ∧ p.psarAfMax ≤ 1

/-- The stop lags the extreme and lies under the low before the last one. -/
structure PsarState.Lagging (q : PsarState) : Prop where
  sar_le_ep : q.sar ≤ q.ep
  af_nonneg : 0 ≤ q.af
  af_le_one : q.af ≤ 1
  sar_le : ∀ low ∈ q.priorPriorLow, q.sar ≤ low

section Psar

variable {p : ExitParams} {trade : Trade} {row : BarRow} {q : PsarState}

@[simp] theorem updatePsarLong_priorLow (state : Option PsarState) :
    (updatePsarLong p trade row state).priorLow = some row.bar.low := by
  cases state <;> rfl

theorem clampPsarLong_le (sar : ℚ) (priorLow priorPriorLow : Option ℚ) :
    clampPsarLong sar priorLow priorPriorLow ≤ sar ∧
      (∀ low ∈ priorLow, clampPsarLong sar priorLow priorPriorLow ≤ low) := by
  cases priorLow <;> cases priorPriorLow <;> simp [clampPsarLong]

theorem le_clampPsarLong {sar x : ℚ} {priorLow priorPriorLow : Option ℚ} (hsar : x ≤ sar)
    (hprior : ∀ low ∈ priorLow, x ≤ low) (hpriorPrior : ∀ low ∈ priorPriorLow, x ≤ low) :
    x ≤ clampPsarLong sar priorLow priorPriorLow := by
  cases priorLow <;> cases priorPriorLow <;> simp_all [clampPsarLong]

/-- Between the stop and its extreme lies the next stop, before it is clamped. -/
theorem PsarState.Lagging.advance (h : q.Lagging) :
    q.sar ≤ q.sar + q.af * (q.ep - q.sar) ∧ q.sar + q.af * (q.ep - q.sar) ≤ q.ep := by
  have hgap : 0 ≤ q.ep - q.sar := sub_nonneg.mpr h.sar_le_ep
  have hlow : 0 ≤ q.af * (q.ep - q.sar) := mul_nonneg h.af_nonneg hgap
  have hhigh : q.af * (q.ep - q.sar) ≤ 1 * (q.ep - q.sar) :=
    mul_le_mul_of_nonneg_right h.af_le_one hgap
  constructor <;> linarith

theorem PsarState.Lagging.updatePsarLong (hp : p.Declared) {state : Option PsarState}
    (h : ∀ q ∈ state, q.Lagging) : (updatePsarLong p trade row state).Lagging := by
  cases state with
  | none =>
    constructor
    · exact (min_le_left _ _).trans (le_max_left _ _)
    · exact hp.psarAfStart.1
    · exact hp.psarAfStart.2.trans (by norm_num)
    · exact fun low hlow => absurd hlow (Option.not_mem_none low)
  | some q =>
    have hq := h q rfl
    have hclamp := clampPsarLong_le (q.sar + q.af * (q.ep - q.sar)) q.priorLow q.priorPriorLow
    constructor
    · refine (hclamp.1.trans hq.advance.2).trans ?_
      dsimp only [Execution.updatePsarLong]
      split
      next hnew => exact hnew.le
      · exact le_rfl
    · dsimp only [Execution.updatePsarLong]
      split
      · exact le_min (add_nonneg hq.af_nonneg hp.psarAfStep.1) hp.psarAfMax.1
      · exact hq.af_nonneg
    · dsimp only [Execution.updatePsarLong]
      split
      · exact (min_le_right _ _).trans hp.psarAfMax.2
      · exact hq.af_le_one
    · exact hclamp.2

theorem PsarState.Lagging.sar_le_updatePsarLong (h : q.Lagging)
    (hquiet : ∀ low ∈ q.priorLow, q.sar ≤ low) :
    q.sar ≤ (Execution.updatePsarLong p trade row (some q)).sar :=
  le_clampPsarLong h.advance.1 hquiet h.sar_le

end Psar

/-- What a trailing rule remembers: an extreme of the trade, or the level itself. -/
def ExitRuleId.mark (trade : Trade) (s : RuleState) : ExitRuleId → Option ℚ
  | .trailing => some (s.extreme.getD trade.entryPrice)
  | .chandelier => some (s.peak.getD trade.entryPrice)
  | .profitTargetRatchet => if s.armed then s.ratchet else none
  | .psar => s.psar.map PsarState.sar
  | _ => none

/-- What holds of the dictionary of the parabolic SAR after each bar. -/
def RuleState.Follows (trade : Trade) (s : RuleState) : Prop :=
  ∀ q ∈ s.psar, (trade.uprightPsar q).Lagging

section Marks

variable {p : ExitParams} {trade : Trade} {rule : ExitRuleId} {row row' : BarRow} {s : RuleState}
  {rows : List BarRow} {m : ℚ}

theorem RuleState.Follows.onBar (hp : p.Declared) (h : s.Follows trade) :
    (ExitRuleId.psar.onBar p trade row s).Follows trade := by
  intro q hq
  have hup := onBar_psar_upright p trade row s
  rw [Option.mem_def.mp hq, Option.map_some, Option.some.injEq] at hup
  rw [hup]
  refine PsarState.Lagging.updatePsarLong hp fun q' hq' => ?_
  obtain ⟨q₀, hq₀, rfl⟩ := Option.map_eq_some_iff.mp hq'
  exact h q₀ hq₀

theorem follows_stateAfter (hp : p.Declared) (rows : List BarRow) :
    (ExitRuleId.psar.stateAfter p trade rows).Follows trade := by
  induction rows using List.reverseRecOn with
  | nil => exact fun q hq => absurd hq (Option.not_mem_none q)
  | append_singleton rows row ih =>
    rw [stateAfter_append]
    exact ih.onBar hp

/-- One more bar tightens the mark, if the parabolic SAR was not hit on the bar before. -/
theorem mark_onBar (hrule : rule ∈ trailingRules) (hm : rule.mark trade s = some m)
    (hpsar : rule = .psar → s.Follows trade ∧ ∀ q ∈ s.psar, ∀ low ∈ (trade.uprightPsar q).priorLow,
      (trade.uprightPsar q).sar ≤ low) :
    ∃ m', rule.mark trade (rule.onBar p trade row s) = some m' ∧ trade.Tighter m m' := by
  simp only [trailingRules, List.mem_cons, List.not_mem_nil, or_false] at hrule
  rcases hrule with rfl | rfl | rfl | rfl
  · obtain rfl : s.extreme.getD trade.entryPrice = m := Option.some.inj hm
    refine ⟨_, rfl, ?_⟩
    unfold Trade.Tighter
    split
    next hlong => simp [ExitRuleId.onBar, hlong]
    next hshort => simp [ExitRuleId.onBar, hshort]
  · obtain rfl : s.peak.getD trade.entryPrice = m := Option.some.inj hm
    refine ⟨_, rfl, ?_⟩
    unfold Trade.Tighter
    split
    next hlong => simp [ExitRuleId.onBar, hlong]
    next hshort => simp [ExitRuleId.onBar, hshort]
  · dsimp only [ExitRuleId.mark, ExitRuleId.onBar] at hm ⊢
    split at hm
    next harmed =>
      cases hatr : row.get (ExitColumn.atr p.atrPeriod).name with
      | none => exact ⟨m, by simp [harmed, hm], Trade.Tighter.refl _ _⟩
      | some atr =>
        dsimp only
        unfold updateRatchet Trade.Tighter
        cases hlong : trade.isLong <;> simp [harmed, hm]
    · cases hm
  · obtain ⟨q, hq, rfl⟩ := Option.map_eq_some_iff.mp hm
    obtain ⟨hfollows, hquiet⟩ := hpsar rfl
    have hup := onBar_psar_upright p trade row s
    obtain ⟨q', hq', hup'⟩ := Option.map_eq_some_iff.mp hup
    refine ⟨q'.sar, by simp [ExitRuleId.mark, hq'], ?_⟩
    rw [← Trade.uprightPsar_sar_le, hup', hq, Option.map_some]
    exact (hfollows q hq).sar_le_updatePsarLong (hquiet q hq)

theorem columnsReady_psar (p : ExitParams) (row : BarRow) : columnsReady p row .psar = true := by
  simp [columnsReady, ExitRuleId.requiredColumns]

theorem beyond_of_quiet (hquiet : ExitRuleId.psar.signals p trade row
    (ExitRuleId.psar.onBar p trade row s) = false) :
    ∀ q ∈ (ExitRuleId.psar.onBar p trade row s).psar, ∀ low ∈ (trade.uprightPsar q).priorLow,
      (trade.uprightPsar q).sar ≤ low := by
  intro q hq low hlow
  have hup := onBar_psar_upright p trade row s
  rw [Option.mem_def.mp hq, Option.map_some, Option.some.injEq] at hup
  have hnothit : hitsStop trade row q.sar q.sar ≠ true := by
    intro hhit
    have hexit : ExitRuleId.psar.shouldExit p trade row
        (ExitRuleId.psar.onBar p trade row s) = true := by
      simp only [ExitRuleId.shouldExit, Option.mem_def.mp hq, Option.elim_some, hhit]
    exact signals_eq_false.mp hquiet ⟨columnsReady_psar p row, hexit⟩
  rw [Ne, hitsStop_upright, not_le] at hnothit
  have hprior : low = (trade.uprightRow row).bar.low := by
    rw [hup, updatePsarLong_priorLow] at hlow
    exact (Option.some.inj hlow).symm
  exact hprior ▸ hnothit.le

/-- The mark after `i + 1` bars. -/
def ExitRuleId.markAt (p : ExitParams) (trade : Trade) (rule : ExitRuleId) (rows : List BarRow)
    (i : ℕ) : Option ℚ :=
  rule.mark trade (rule.stateAfter p trade (rows.take (i + 1)))

theorem markAt_succ (hp : p.Declared) (hrule : rule ∈ trailingRules) {i : ℕ}
    (hlt : i + 1 < rows.length) (hquiet : rule.signalsAt p trade rows i = false)
    (hm : rule.markAt p trade rows i = some m) :
    ∃ m', rule.markAt p trade rows (i + 1) = some m' ∧ trade.Tighter m m' := by
  have hrow := List.getElem?_eq_getElem (Nat.lt_of_succ_lt hlt)
  have hnext := List.getElem?_eq_getElem hlt
  rw [ExitRuleId.markAt, stateAfter_take_succ hnext]
  refine mark_onBar hrule hm fun hpsar => ?_
  subst hpsar
  refine ⟨follows_stateAfter hp _, ?_⟩
  rw [stateAfter_take_succ hrow]
  rw [ExitRuleId.signalsAt, hrow, Option.any_some, stateAfter_take_succ hrow] at hquiet
  exact beyond_of_quiet hquiet

/-- Over bars on which the rule stays silent, marks tighten. -/
theorem markAt_tighter (hp : p.Declared) (hrule : rule ∈ trailingRules)
    (hquiet : ∀ i, i + 1 < rows.length → rule.signalsAt p trade rows i = false) {i j : ℕ}
    (hij : i ≤ j) (hj : j < rows.length) (hm : rule.markAt p trade rows i = some m) :
    ∃ m', rule.markAt p trade rows j = some m' ∧ trade.Tighter m m' := by
  induction j, hij using Nat.le_induction with
  | base => exact ⟨m, hm, Trade.Tighter.refl _ _⟩
  | succ j hij ih =>
    obtain ⟨m', hm', hold⟩ := ih (Nat.lt_of_succ_lt hj)
    obtain ⟨m'', hm'', hnew⟩ := markAt_succ hp hrule hj (hquiet j hj) hm'
    exact ⟨m'', hm'', hold.trans hnew⟩

/-- The volatility of a bar. -/
def atrAt (p : ExitParams) (rows : List BarRow) (i : ℕ) : Option ℚ :=
  rows[i]?.bind (fun row => row.get (ExitColumn.atr p.atrPeriod).name)

/-- How far the volatility carries the level of a rule away from the price between two bars. -/
def ExitRuleId.drift (p : ExitParams) (rule : ExitRuleId) (rows : List BarRow) (i j : ℕ) : ℚ :=
  if rule = .chandelier then
    p.chandelierAtrMult * ((atrAt p rows j).getD 0 - (atrAt p rows i).getD 0)
  else 0

theorem levelAt_eq (hrule : rule ∈ trailingRules) {i : ℕ} {l : ℚ}
    (h : rule.levelAt p trade rows i = some l) :
    i < rows.length ∧ ∃ m, rule.markAt p trade rows i = some m ∧
      (rule = .trailing → l = if trade.isLong then m * (1 - p.trailingStopPct)
        else m * (1 + p.trailingStopPct)) ∧
      (rule = .chandelier → trade.closer l (p.chandelierAtrMult * (atrAt p rows i).getD 0) = m) ∧
      (rule = .profitTargetRatchet ∨ rule = .psar → l = m) := by
  obtain ⟨row, hrow, hl⟩ := Option.bind_eq_some_iff.mp h
  refine ⟨(List.getElem?_eq_some_iff.mp hrow).1, ?_⟩
  simp only [trailingRules, List.mem_cons, List.not_mem_nil, or_false] at hrule
  rcases hrule with rfl | rfl | rfl | rfl
  · exact ⟨_, rfl, fun _ => (Option.some.inj hl).symm, by simp, by simp⟩
  · obtain ⟨atr, hatr, rfl⟩ := Option.map_eq_some_iff.mp hl
    refine ⟨_, rfl, by simp, fun _ => ?_, by simp⟩
    unfold Trade.closer
    cases hlong : trade.isLong <;> simp [atrAt, hrow, hatr]
  · exact ⟨l, hl, by simp, by simp, fun _ => rfl⟩
  · exact ⟨l, hl, by simp, by simp, fun _ => rfl⟩

end Marks

/-- Over bars on which a trailing rule stays silent its level does not loosen, but for the drift
of the volatility that the chandelier takes anew from each bar. -/
theorem trailing_levels_tighten {p : ExitParams} {trade : Trade} {rule : ExitRuleId}
    {rows : List BarRow} (hp : p.Declared) (hrule : rule ∈ trailingRules)
    (hquiet : ∀ i, i + 1 < rows.length → rule.signalsAt p trade rows i = false) {i j : ℕ}
    (hij : i ≤ j) {l l' : ℚ} (hl : rule.levelAt p trade rows i = some l)
    (hl' : rule.levelAt p trade rows j = some l') :
    trade.Tighter l (trade.closer l' (rule.drift p rows i j)) := by
  obtain ⟨-, m, hm, hpct, hatr, hsame⟩ := levelAt_eq hrule hl
  obtain ⟨hj, m', hm', hpct', hatr', hsame'⟩ := levelAt_eq hrule hl'
  obtain ⟨m'', hm'', htighter⟩ := markAt_tighter hp hrule hquiet hij hj hm
  obtain rfl : m' = m'' := Option.some.inj (hm'.symm.trans hm'')
  have hlow : 0 ≤ 1 - p.trailingStopPct := by linarith [hp.trailingStopPct.2]
  have hhigh : 0 ≤ 1 + p.trailingStopPct := by linarith [hp.trailingStopPct.1]
  simp only [trailingRules, List.mem_cons, List.not_mem_nil, or_false] at hrule
  unfold Trade.Tighter Trade.closer ExitRuleId.drift at *
  rcases hrule with rfl | rfl | rfl | rfl
  · rw [hpct rfl, hpct' rfl]
    cases hlong : trade.isLong <;> simp [hlong] at htighter ⊢
    · exact mul_le_mul_of_nonneg_right htighter hhigh
    · exact mul_le_mul_of_nonneg_right htighter hlow
  · have h := hatr rfl
    have h' := hatr' rfl
    cases hlong : trade.isLong <;> simp [hlong] at htighter h h' ⊢ <;> linarith
  · rw [hsame (.inl rfl), hsame' (.inl rfl)]
    simpa using htighter
  · rw [hsame (.inr rfl), hsame' (.inr rfl)]
    simpa using htighter

def chandelierParams : ExitParams := { chandelierAtrMult := 3 }

/-- On a rising market that doubles its volatility, the level rises by less than it drifts. -/
theorem trailing_levels_tighten_chandelier : trailedTrade.Tighter 98
    (trailedTrade.closer 97 (ExitRuleId.chandelier.drift chandelierParams
      [trailedRow 0 101 100 (some 1), trailedRow 1 103 101 (some 2)] 0 1)) :=
  trailing_levels_tighten
    { trailingStopPct := by decide +kernel, psarAfStart := by decide +kernel
      psarAfStep := by decide +kernel, psarAfMax := by decide +kernel }
    (by decide) (fun i hi => by
      have hlt : i + 1 < 2 := hi
      obtain rfl : i = 0 := by omega
      decide +kernel) (Nat.zero_le 1) (by decide +kernel) (by decide +kernel)

/-- The chandelier falls when the volatility rises and the peak stays. Out of their ranges, the
percent stop falls with each new peak, and the parabolic SAR once it accelerates downwards. -/
theorem chandelier_level_falls :
    (∀ i < 2, ExitRuleId.chandelier.signalsAt chandelierParams trailedTrade
        [trailedRow 0 101 100 (some 1), trailedRow 1 101 100 (some 3)] i = false) ∧
      ExitRuleId.chandelier.levelAt chandelierParams trailedTrade
        [trailedRow 0 101 100 (some 1), trailedRow 1 101 100 (some 3)] 0 = some 98 ∧
      ExitRuleId.chandelier.levelAt chandelierParams trailedTrade
        [trailedRow 0 101 100 (some 1), trailedRow 1 101 100 (some 3)] 1 = some 92 ∧
      ¬ trailedTrade.Tighter 98 92 ∧
      (∀ i < 2, ExitRuleId.trailing.signalsAt { trailingStopPct := 2 } trailedTrade
        [trailedRow 0 101 100 none, trailedRow 1 110 101 none] i = false) ∧
      ExitRuleId.trailing.levelAt { trailingStopPct := 2 } trailedTrade
        [trailedRow 0 101 100 none, trailedRow 1 110 101 none] 0 = some (-101) ∧
      ExitRuleId.trailing.levelAt { trailingStopPct := 2 } trailedTrade
        [trailedRow 0 101 100 none, trailedRow 1 110 101 none] 1 = some (-110) ∧
      ¬ trailedTrade.Tighter (-101) (-110) ∧
      (∀ i < 3, ExitRuleId.psar.signalsAt { psarAfStart := 1 / 50, psarAfMax := -1 } trailedTrade
        [trailedRow 0 102 101 none, trailedRow 1 104 102 none, trailedRow 2 104 103 none] i =
          false) ∧
      ExitRuleId.psar.levelAt { psarAfStart := 1 / 50, psarAfMax := -1 } trailedTrade
        [trailedRow 0 102 101 none, trailedRow 1 104 102 none, trailedRow 2 104 103 none] 1 =
          some (10004 / 100) ∧
      ExitRuleId.psar.levelAt { psarAfStart := 1 / 50, psarAfMax := -1 } trailedTrade
        [trailedRow 0 102 101 none, trailedRow 1 104 102 none, trailedRow 2 104 103 none] 2 =
          some (9608 / 100) ∧
      ¬ trailedTrade.Tighter (10004 / 100) (9608 / 100) := by
  refine ⟨?_, ?_, ?_, ?_, ?_, ?_, ?_, ?_, ?_, ?_, ?_, ?_⟩
  case refine_4 | refine_8 | refine_12 =>
    show ¬ (_ : ℚ) ≤ _
    norm_num
  all_goals decide +kernel

/-! ## The level that the bars before determine -/

section SetBefore

variable (p : ExitParams) (trade : Trade)

/-- The next level of the parabolic SAR, from the bars already seen. -/
def psarLevelBefore (s : RuleState) : Option ℚ :=
  s.psar.map (fun q =>
    let next := q.sar + q.af * (q.ep - q.sar)
    if trade.isLong then clampPsarLong next q.priorLow q.priorPriorLow
    else clampPsarShort next q.priorHigh q.priorPriorHigh)

/-- Every bar that signals reaches the level that the bars before it determine. -/
def SetBeforeHit (rows : List BarRow) : Prop :=
  ∀ k row, rows[k]? = some row → ExitRuleId.psar.signalsAt p trade rows k = true →
    ∃ l, psarLevelBefore trade (ExitRuleId.psar.stateAfter p trade (rows.take k)) = some l ∧
      hitsStop trade row l l = true

/-- The bar stays beyond the entry price. -/
def Trade.ClearOf (row : BarRow) : Prop :=
  if trade.isLong then trade.entryPrice < row.bar.low else row.bar.high < trade.entryPrice

end SetBefore

section SetBefore

variable {p : ExitParams} {trade : Trade} {row : BarRow} {s : RuleState} {rows : List BarRow}

theorem psar_signals_iff : ExitRuleId.psar.signals p trade row s = true ↔
    ∃ q ∈ s.psar, hitsStop trade row q.sar q.sar = true := by
  cases hq : s.psar <;> simp [ExitRuleId.signals, ExitRuleId.shouldExit, columnsReady_psar, hq]

theorem signalsAt_iff {rule : ExitRuleId} {k : ℕ} (hrow : rows[k]? = some row) :
    rule.signalsAt p trade rows k = true ↔
      rule.signals p trade row (rule.onBar p trade row
        (rule.stateAfter p trade (rows.take k))) = true := by
  rw [ExitRuleId.signalsAt, hrow, Option.any_some, stateAfter_take_succ hrow]

/-- A later bar is compared with the level from before it. -/
theorem psar_onBar_sar (p : ExitParams) (row : BarRow) {q : PsarState} (hq : s.psar = some q) :
    (ExitRuleId.psar.onBar p trade row s).psar.map PsarState.sar = psarLevelBefore trade s := by
  cases hlong : trade.isLong <;>
    simp [ExitRuleId.onBar, psarLevelBefore, hq, hlong, updatePsarLong, updatePsarShort]

theorem psar_signals_first (hs : s.psar = none) :
    ExitRuleId.psar.signals p trade row (ExitRuleId.psar.onBar p trade row s) = true ↔
      ¬ trade.ClearOf row := by
  rw [psar_signals_iff]
  cases hlong : trade.isLong <;>
    simp [ExitRuleId.onBar, hs, hlong, hitsStop, Trade.ClearOf, updatePsarLong, updatePsarShort]

theorem psar_isSome_stateAfter (p : ExitParams) (trade : Trade) (hrows : rows ≠ []) :
    ∃ q, (ExitRuleId.psar.stateAfter p trade rows).psar = some q := by
  induction rows using List.reverseRecOn with
  | nil => exact absurd rfl hrows
  | append_singleton rows row ih =>
    rw [stateAfter_append]
    exact ⟨_, rfl⟩

end SetBefore

/-- The stop is set before it is hit exactly when the first bar stays beyond the entry price. -/
theorem psar_set_before_hit_iff (p : ExitParams) (trade : Trade) (rows : List BarRow) :
    SetBeforeHit p trade rows ↔ ∀ row, rows.head? = some row → trade.ClearOf row := by
  constructor
  · intro h row hrow
    have hzero : rows[0]? = some row := by rwa [← List.head?_eq_getElem?]
    by_contra hclear
    have hsignal := (signalsAt_iff hzero).mpr ((psar_signals_first (p := p) rfl).mpr hclear)
    obtain ⟨l, hl, -⟩ := h 0 row hzero hsignal
    exact Option.some_ne_none l hl.symm
  · intro h k row hrow hsignal
    rw [signalsAt_iff hrow] at hsignal
    obtain rfl | hk := Nat.eq_zero_or_pos k
    · -- The first bar signals only when it is not clear of the entry.
      refine absurd (h row ?_) ((psar_signals_first rfl).mp hsignal)
      rwa [List.head?_eq_getElem?]
    · have hne : rows.take k ≠ [] := by
        intro hnil
        have hlt := (List.getElem?_eq_some_iff.mp hrow).1
        have hlen := congrArg List.length hnil
        rw [List.length_take, List.length_nil] at hlen
        omega
      obtain ⟨q, hq⟩ := psar_isSome_stateAfter p trade hne
      obtain ⟨q', hq', hhit⟩ := psar_signals_iff.mp hsignal
      refine ⟨q'.sar, ?_, hhit⟩
      rw [← psar_onBar_sar p row hq, Option.mem_def.mp hq', Option.map_some]

/-- A bar whose low lies under the entry price sets the stop to that low and hits it. -/
theorem psar_seeded_by_hit :
    ¬ SetBeforeHit { psarAfStart := 1 / 50 } trailedTrade [trailedRow 0 103 99 none] ∧
      ExitRuleId.psar.levelAt { psarAfStart := 1 / 50 } trailedTrade
        [trailedRow 0 103 99 none] 0 = some 99 := by
  refine ⟨fun h => ?_, by decide +kernel⟩
  obtain ⟨l, hl, -⟩ := h 0 (trailedRow 0 103 99 none) rfl (by decide +kernel)
  exact Option.some_ne_none l hl.symm

end QBackend.Execution
