import QBackend.LoweredSeries

/-!
# Signals of lowered specs

Every comparison of a spec is a node of the genome that is true on the bars on which it holds, and
every group is joined to one that holds where the group does. A spec that the compiler lowers means,
as a composite strategy, what it says.
-/

namespace QBackend.StrategyBuilder

open GenomeDsl CausalSeries PriceFloat FallibleSteps RegisteredStrategies
open DistinctKeys (mem_of_lookup)

variable {F : Type} [PriceFloat F]

section Comparisons

variable {trial : TrialParams} {frame : Frame F} {latents : Option (Latents F)}
  {b b' : Builder} {table : SeriesTable F} {values : Values F} {spec : StrategySpec}

/-! ## Operators -/

variable (trial frame latents) in
/-- The node of an operator compares as the operator says. -/
inductive OperatorMeans (op : String) (kind : NodeKind) : Prop where
  | level (hop : isCrossing op = false) (hnone : (crossingOperators (F := F)).lookup op = none)
      (compare : F → F → Bool) (hcompare : levelOperators.lookup op = some compare)
      (hpair : ∀ params xs ys, evaluateKind frame latents kind params [.numbers xs, .numbers ys] =
        .ok (outBools (List.zipWith compare xs ys)))
  | crossing (hop : isCrossing op = true) (operators : (F → F → Bool) × (F → F → Bool))
      (hcross : crossingOperators.lookup op = some operators)
      (hpair : ∀ params xs ys, evaluateKind frame latents kind params [.numbers xs, .numbers ys] =
        .ok (outBools (crossing operators.1 operators.2 xs ys)))
      (hlevel : ∀ id inputs threshold keys xs, evaluateKind frame latents kind
        (resolveNodeParams trial
          ⟨id, kind, [("threshold", .lit (.float threshold))], inputs, keys⟩) [.numbers xs] =
        .ok (outBools (crossingLevel operators.1 operators.2 (ofRat threshold) xs)))

variable (trial frame latents) in
theorem operatorMeans {op : String} {kind : NodeKind}
    (h : operatorToCmpKind.lookup op = some kind) :
    OperatorMeans trial frame latents op kind := by
  have hthreshold : ∀ (id : String) (kind : NodeKind) (inputs : List String) (threshold : ℚ)
      (keys : ([("threshold", ParamValue.lit (.float threshold))].map Prod.fst).Nodup),
      kind ≠ .transformShift →
      ((resolveNodeParams trial ⟨id, kind, [("threshold", .lit (.float threshold))], inputs,
        keys⟩).lookup "threshold").getD (.float 0) = .float threshold := by
    intro id kind inputs threshold keys hkind
    rw [lookup_resolveNodeParams hkind]
    rfl
  have hentry := mem_of_lookup h
  simp only [operatorToCmpKind, List.mem_cons, Prod.mk.injEq, List.not_mem_nil, or_false] at hentry
  obtain ⟨rfl, rfl⟩ | ⟨rfl, rfl⟩ | ⟨rfl, rfl⟩ | ⟨rfl, rfl⟩ | ⟨rfl, rfl⟩ | ⟨rfl, rfl⟩ := hentry
  · exact .level (by decide) rfl gt rfl fun _ _ _ => rfl
  · exact .level (by decide) rfl lt rfl fun _ _ _ => rfl
  · exact .level (by decide) rfl ge rfl fun _ _ _ => rfl
  · exact .level (by decide) rfl le rfl fun _ _ _ => rfl
  · refine .crossing (by decide) (gt, le) rfl (fun _ _ _ => rfl) fun id inputs threshold keys xs => ?_
    simp [evaluateKind, NodeKind.family, evaluateBoolNode, evaluateCross, series, input,
      Column.values, hthreshold, Value.toFloat, ok_bind, crossingLevel]
  · refine .crossing (by decide) (lt, ge) rfl (fun _ _ _ => rfl) fun id inputs threshold keys xs => ?_
    simp [evaluateKind, NodeKind.family, evaluateBoolNode, evaluateCross, series, input,
      Column.values, hthreshold, Value.toFloat, ok_bind, crossingLevel]

/-! ## Comparisons -/

/-- A signal of the builder: a node that is true on the bars. -/
structure ReadsSignal (values : Values F) (raw : String) (signal : List Bool) : Prop where
  reads : Reads values raw (flags signal)
  name : ∃ n, raw = nodeName n

omit [PriceFloat F] in
theorem readsSignal_node {values' : Values F} {n : ℕ} {signal : List Bool}
    (h : values' (nodeName n) = fun port => (outBools signal).lookup port) :
    ReadsSignal values' (nodeName n) signal := by
  refine ⟨?_, n, rfl⟩
  rw [reads_nodeName, h]
  rfl

omit [PriceFloat F] in
theorem ReadsSignal.keep {values' : Values F} {raw : String} {signal : List Bool}
    (h : ReadsSignal values raw signal) (hkeeps : Keeps values values') :
    ReadsSignal values' raw signal :=
  ⟨h.reads.keep hkeeps, h.name⟩

theorem addDifference_evaluated (h : Sound F spec.indicators b)
    (he : Evaluated trial frame latents b table values) {left right : String} {xs ys : List F}
    {heights : List ℕ}
    (hrefers : List.Forall₂ (Refers b.nodes seriesTypes) [left, right] heights)
    (hleft : Reads values left (.numbers xs)) (hright : Reads values right (.numbers ys)) :
    ∃ values', Sound F spec.indicators (b.addNode .indDiff [] [left, right]).2 ∧
      Evaluated trial frame latents (b.addNode .indDiff [] [left, right]).2 table values' ∧
      Keeps values values' ∧
      Reads values' (b.addNode .indDiff [] [left, right]).1 (.numbers (List.zipWith sub xs ys)) := by
  have hdifference : evaluateKind frame latents .indDiff
      (resolveNodeParams trial ⟨nodeName (b.nodeCounter + 1), .indDiff, [], [left, right], by simp⟩)
      [.numbers xs, .numbers ys] = .ok (out (List.zipWith sub xs ys)) := rfl
  obtain ⟨values', he', hkeeps, hvalues⟩ :=
    addNode_evaluated h he (.cons hleft (.cons hright .nil)) hdifference
  obtain ⟨hdiff, -⟩ := addNode_extends h (by simp) plain_indDiff accepts_indDiff
    (by simp [nodeSpec]) hrefers
  refine ⟨values', hdiff.sound, he', hkeeps, ?_⟩
  simp only [Builder.addNode, reads_nodeName, hvalues]
  rfl

variable {condition : ComparisonCondition} {id : String}

theorem compileComparison_evaluated (hnd : (spec.indicators.map IndicatorSpec.id).Nodup)
    (htable : table.map Prod.fst = spec.indicators) (h : Sound F spec.indicators b)
    (he : Evaluated trial frame latents b table values)
    (hs : b.compileComparison spec condition = .ok (id, b')) :
    ∃ values' signal, Evaluated trial frame latents b' table values' ∧ Keeps values values' ∧
      condition.signals spec frame table = some signal ∧ ReadsSignal values' id signal := by
  unfold Builder.compileComparison at hs
  cases hkind : operatorToCmpKind.lookup condition.op with
  | none =>
    rw [hkind] at hs
    cases hs
  | some kind =>
    simp only [hkind, bind_eq_ok] at hs
    obtain ⟨⟨left, b₁⟩, hleft, hs⟩ := hs
    obtain ⟨-, hext₁, hrefers₁⟩ := resolveReference_extends hnd h hleft
    obtain ⟨values₁, xs, he₁, hkeeps₁, hxs, hreads₁⟩ :=
      resolveReference_evaluated hnd htable h he hleft
    have hmeans := operatorMeans trial frame latents hkind
    by_cases hliteral : isCrossing condition.op = true ∧ condition.right.isNumber = true
    · simp only [if_pos hliteral, bind_eq_ok] at hs
      obtain ⟨hcross, hnumber⟩ := hliteral
      obtain ⟨threshold, hfloat, hs⟩ := hs
      obtain ⟨rfl, rfl⟩ := Prod.mk.inj (pure_eq_ok.mp hs)
      cases hmeans with
      | level hop =>
        rw [hcross] at hop
        cases hop
      | crossing hop operators hoperators hpair hlevel =>
        obtain ⟨values', he', hkeeps, hvalues⟩ := addNode_evaluated hext₁.sound he₁
          (.cons hreads₁.inputRef .nil) (hlevel _ _ threshold _ xs)
        refine ⟨values', _, he', hkeeps₁.trans hkeeps, ?_, readsSignal_node hvalues⟩
        rw [signals_of_number hxs hnumber]
        unfold ComparisonCondition.againstNumber
        rw [hoperators, hfloat]
        rfl
    · simp only [if_neg hliteral, bind_eq_ok] at hs
      obtain ⟨⟨right, b₂⟩, hright, hs⟩ := hs
      obtain ⟨ref, href, hreference, -, hext₂, hrefers₂⟩ :=
        resolveOperand_extends hnd hext₁.sound hright
      obtain ⟨values₂, ys, he₂, hkeeps₂, hys, hreads₂⟩ :=
        resolveReference_evaluated hnd htable hext₁.sound he₁ hreference
      have hleft₂ := hreads₁.keep hkeeps₂
      rw [signals_of_series hxs href hys]
      unfold ComparisonCondition.againstSeries
      by_cases haverages :
          (isCrossing condition.op && isMaPair spec condition.left condition.right) = true
      · obtain ⟨hcross, hpair⟩ := Bool.and_eq_true_iff.mp haverages
        have hpair' := hpair
        rw [href, isMaPair, Bool.and_eq_true] at hpair'
        have hout := resolveReference_out hnd h hpair'.1 hleft
        have hout' := resolveReference_out hnd hext₁.sound hpair'.2 hreference
        rw [if_pos ⟨hcross, hout, hout', hpair⟩] at hs
        obtain ⟨rfl, rfl⟩ := Prod.mk.inj (pure_eq_ok.mp hs)
        cases hmeans with
        | level hop =>
          rw [hcross] at hop
          cases hop
        | crossing hop operators hoperators hpairs hlevel =>
          -- the difference first, then its crossing of zero
          obtain ⟨values₃, hdiff, he₃, hkeeps₃, hread⟩ := addDifference_evaluated hext₂.sound he₂
            (.cons ((hrefers₁.mono hext₂.sound.assembled hext₂.nodes).node hout)
              (.cons (hrefers₂.node hout') .nil)) (hleft₂.node hout) (hreads₂.node hout')
          obtain ⟨values', he', hkeeps, hvalues⟩ :=
            addNode_evaluated hdiff he₃ (.cons hread .nil) (hlevel _ _ 0 _ _)
          refine ⟨values', _, he', ((hkeeps₁.trans hkeeps₂).trans hkeeps₃).trans hkeeps, ?_,
            readsSignal_node hvalues⟩
          rw [hoperators, hpair]
          rfl
      · have hbranch : ¬ (isCrossing condition.op = true ∧ (parseInputRef left).2 = "out" ∧
            (parseInputRef right).2 = "out" ∧
            isMaPair spec condition.left condition.right = true) := fun hc =>
          haverages (Bool.and_eq_true_iff.mpr ⟨hc.1, hc.2.2.2⟩)
        rw [if_neg hbranch] at hs
        obtain ⟨rfl, rfl⟩ := Prod.mk.inj (pure_eq_ok.mp hs)
        cases hmeans with
        | level hop hnone compare hcompare hpairs =>
          obtain ⟨values', he', hkeeps, hvalues⟩ := addNode_evaluated hext₂.sound he₂
            (.cons hleft₂.inputRef (.cons hreads₂.inputRef .nil)) (hpairs _ xs ys)
          refine ⟨values', _, he', (hkeeps₁.trans hkeeps₂).trans hkeeps, ?_,
            readsSignal_node hvalues⟩
          rw [hnone, hcompare]
          rfl
        | crossing hop operators hoperators hpairs hlevel =>
          obtain ⟨values', he', hkeeps, hvalues⟩ := addNode_evaluated hext₂.sound he₂
            (.cons hleft₂.inputRef (.cons hreads₂.inputRef .nil)) (hpairs _ xs ys)
          refine ⟨values', _, he', (hkeeps₁.trans hkeeps₂).trans hkeeps, ?_,
            readsSignal_node hvalues⟩
          have hpair : isMaPair spec condition.left condition.right = false := by
            simpa [hop] using haverages
          rw [hoperators, hpair]
          rfl

theorem compileComparisons_evaluated (hnd : (spec.indicators.map IndicatorSpec.id).Nodup)
    (htable : table.map Prod.fst = spec.indicators)
    (hlengths : ∀ entry ∈ table, ∀ s ∈ entry.2, s.2.length = frame.rows.length)
    {conditions : List ComparisonCondition} {refs : List String} (h : Sound F spec.indicators b)
    (he : Evaluated trial frame latents b table values)
    (hs : b.compileComparisons spec conditions = .ok (refs, b')) :
    ∃ values' signals, Evaluated trial frame latents b' table values' ∧ Keeps values values' ∧
      conditions.mapM (fun condition => condition.signals spec frame table) = some signals ∧
      List.Forall₂ (ReadsSignal values') refs signals ∧
      ∀ signal ∈ signals, signal.length = frame.rows.length := by
  induction conditions generalizing b values refs with
  | nil =>
    obtain ⟨rfl, rfl⟩ := Prod.mk.inj (Except.ok.inj hs)
    exact ⟨values, [], he, fun _ _ _ hcolumn => hcolumn, rfl, .nil, by simp⟩
  | cons condition rest ih =>
    unfold Builder.compileComparisons at hs
    simp only [bind_eq_ok] at hs
    obtain ⟨⟨ref, b₁⟩, hfirst, ⟨refs', b₂⟩, hrest, hs⟩ := hs
    obtain ⟨rfl, rfl⟩ := Prod.mk.inj (pure_eq_ok.mp hs)
    obtain ⟨-, hext, -⟩ := compileComparison_extends hnd h hfirst
    obtain ⟨values₁, signal, he₁, hkeeps₁, hsignal, hreads⟩ :=
      compileComparison_evaluated hnd htable h he hfirst
    obtain ⟨values', signals, he', hkeeps, hsignals, hall, hsized⟩ := ih hext.sound he₁ hrest
    refine ⟨values', signal :: signals, he', hkeeps₁.trans hkeeps, ?_,
      .cons (hreads.keep hkeeps) hall,
      List.forall_mem_cons.mpr ⟨length_signals hlengths hsignal, hsized⟩⟩
    rw [List.mapM_cons, hsignal, hsignals]
    rfl

/-! ## Joins -/

def ConditionGroup.both : ConditionGroup → Bool → Bool → Bool
  | .all _ => fun a b => a && b
  | .any _ => fun a b => a || b

theorem logical_flags (op : Bool → Bool → Bool) (xs ys : List Bool) :
    List.zipWith (logical op) (flags (F := F) xs).flags (flags (F := F) ys).flags =
      (List.zipWith op xs ys).map some := by
  show List.zipWith (logical op) (xs.map some) (ys.map some) = _
  rw [List.zipWith_map, List.map_zipWith]
  rfl

theorem evaluate_join (group : ConditionGroup) (params : Params) (xs ys : List Bool) :
    evaluateKind frame latents group.join params [flags xs, flags ys] =
      .ok (outBools (List.zipWith group.both xs ys)) := by
  cases group with
  | all conditions =>
    show Except.ok [("out", Column.bools (List.zipWith _ _ _))] = _
    rw [logical_flags]
    rfl
  | any conditions =>
    show Except.ok [("out", Column.bools (List.zipWith _ _ _))] = _
    rw [logical_flags]
    rfl

theorem combineBoolNodes_evaluated {group : ConditionGroup} {current : String} {level : ℕ}
    {conditions : List ComparisonCondition} {refs : List String} {signal : List Bool}
    {signals : List (List Bool)} (h : Sound F spec.indicators b)
    (hcurrent : Refers b.nodes signalTypes current level)
    (hrefs : List.Forall₂ (fun condition ref =>
      Refers b.nodes signalTypes ref (comparisonLevel spec condition)) conditions refs)
    (he : Evaluated trial frame latents b table values)
    (hreads : ReadsSignal values current signal)
    (hall : List.Forall₂ (ReadsSignal values) refs signals) :
    ∃ values', Evaluated trial frame latents (b.combineBoolNodes group.join current refs).2 table
        values' ∧ Keeps values values' ∧
      ReadsSignal values' (b.combineBoolNodes group.join current refs).1
        (signals.foldl (List.zipWith group.both) signal) := by
  induction refs generalizing b values current level conditions signal signals with
  | nil =>
    cases hall
    exact ⟨values, he, fun _ _ _ hcolumn => hcolumn, hreads⟩
  | cons ref refs ih =>
    obtain _ | ⟨hnext, hall⟩ := hall
    obtain _ | ⟨href, hrest⟩ := hrefs
    obtain ⟨hext, hjoined⟩ := addJoin_extends h (isJoin_join group) hcurrent href
    obtain ⟨values₁, he₁, hkeeps₁, hvalues⟩ := addNode_evaluated h he
      (.cons hreads.reads (.cons hnext.reads .nil)) (evaluate_join group _ signal _)
    obtain ⟨values', he', hkeeps, hreads'⟩ := ih hext.sound hjoined
      (hrest.imp fun _ _ hr => hr.mono hext.sound.assembled hext.nodes) he₁
      (readsSignal_node hvalues) (hall.imp fun _ _ hr => hr.keep hkeeps₁)
    exact ⟨values', he', hkeeps₁.trans hkeeps, hreads'⟩

/-! ## Groups -/

theorem signalAt_zipWith {op : Bool → Bool → Bool} (hop : op false false = false)
    {xs ys : List Bool} (h : xs.length = ys.length) (bar : ℕ) :
    signalAt (some (List.zipWith op xs ys)) bar =
      op (signalAt (some xs) bar) (signalAt (some ys) bar) := by
  simp only [signalAt, Option.bind_some, List.getElem?_zipWith]
  by_cases hbar : bar < xs.length
  · rw [List.getElem?_eq_getElem hbar, List.getElem?_eq_getElem (h ▸ hbar)]
    rfl
  · rw [List.getElem?_eq_none (not_lt.mp hbar), List.getElem?_eq_none (h ▸ not_lt.mp hbar)]
    exact hop.symm

theorem ConditionGroup.both_false (group : ConditionGroup) : group.both false false = false := by
  cases group <;> rfl

theorem ConditionGroup.holds_singleton (group : ConditionGroup) (signal : List Bool) (bar : ℕ) :
    group.holds [signal] bar = signalAt (some signal) bar := by
  cases group <;> simp [ConditionGroup.holds]

theorem ConditionGroup.holds_cons (group : ConditionGroup) (signal next : List Bool)
    (signals : List (List Bool)) (bar : ℕ) :
    group.holds (signal :: next :: signals) bar =
      group.both (signalAt (some signal) bar) (group.holds (next :: signals) bar) := by
  cases group <;> simp [ConditionGroup.holds, ConditionGroup.both]

theorem ConditionGroup.both_assoc (group : ConditionGroup) (a b c : Bool) :
    group.both (group.both a b) c = group.both a (group.both b c) := by
  cases group
  · exact Bool.and_assoc a b c
  · exact Bool.or_assoc a b c

theorem ConditionGroup.holds_joined (group : ConditionGroup) {n : ℕ} {signal : List Bool}
    {signals : List (List Bool)} (hsignal : signal.length = n)
    (hsignals : ∀ s ∈ signals, s.length = n) (bar : ℕ) :
    signalAt (some (signals.foldl (List.zipWith group.both) signal)) bar =
      group.holds (signal :: signals) bar := by
  induction signals generalizing signal with
  | nil => exact (group.holds_singleton signal bar).symm
  | cons next signals ih =>
    obtain ⟨hnext, hrest⟩ := List.forall_mem_cons.mp hsignals
    have hjoin := signalAt_zipWith group.both_false (hsignal.trans hnext.symm) bar
    rw [List.foldl_cons, ih (length_zipWith hsignal hnext) hrest]
    cases signals with
    | nil => rw [holds_singleton, hjoin, holds_cons, holds_singleton]
    | cons third signals => rw [holds_cons, hjoin, both_assoc, holds_cons, holds_cons]

/-- A signal that is never raised. -/
def Silent (signal : List Bool) : Prop := ∀ bar, signalAt (some signal) bar = false

theorem silent_of_forall {signal : List Bool} (h : ∀ flag ∈ signal, flag = false) :
    Silent signal := by
  intro bar
  cases hbar : signal[bar]? with
  | none => simp [signalAt, hbar]
  | some flag =>
    obtain rfl := h flag (List.mem_of_getElem? hbar)
    simp [signalAt, hbar]

/-- A close that is never above the high is a signal that is never raised. -/
theorem alwaysFalseOhlc_evaluated {built : List IndicatorSpec} (h : Sound F built b)
    (he : Evaluated trial frame latents b table values)
    (hbars : ∀ row ∈ frame.rows, lt row.high row.close = false)
    (hs : b.alwaysFalseOhlc = .ok (id, b')) :
    ∃ values' signal, Evaluated trial frame latents b' table values' ∧ Keeps values values' ∧
      ReadsSignal values' id signal ∧ Silent signal := by
  unfold Builder.alwaysFalseOhlc at hs
  simp only [bind_eq_ok] at hs
  obtain ⟨⟨close, b₁⟩, hclose, ⟨high, b₂⟩, hhigh, hs⟩ := hs
  obtain ⟨rfl, rfl⟩ := Prod.mk.inj (pure_eq_ok.mp hs)
  obtain ⟨-, hext₁, -⟩ := sourceNode_extends h hclose
  obtain ⟨-, hext₂, -⟩ := sourceNode_extends hext₁.sound hhigh
  obtain ⟨values₁, _, he₁, hkeeps₁, hread₁, hreads₁⟩ := sourceNode_evaluated h he hclose
  obtain ⟨values₂, _, he₂, hkeeps₂, hread₂, hreads₂⟩ :=
    sourceNode_evaluated hext₁.sound he₁ hhigh
  obtain rfl : Row.close = _ := Option.some.inj hread₁
  obtain rfl : Row.high = _ := Option.some.inj hread₂
  have hcompare : evaluateKind frame latents .cmpGt
      (resolveNodeParams trial ⟨nodeName (b₂.nodeCounter + 1), .cmpGt, [], [close, high], by simp⟩)
      [.numbers (frame.column Row.close), .numbers (frame.column Row.high)] =
        .ok (outBools (List.zipWith gt (frame.column Row.close) (frame.column Row.high))) := rfl
  obtain ⟨values', he', hkeeps, hvalues⟩ := addNode_evaluated hext₂.sound he₂
    (.cons (hreads₁.keep hkeeps₂) (.cons hreads₂ .nil)) hcompare
  refine ⟨values', _, he', (hkeeps₁.trans hkeeps₂).trans hkeeps, readsSignal_node hvalues,
    silent_of_forall fun flag hflag => ?_⟩
  unfold Frame.column at hflag
  rw [List.zipWith_map, List.zipWith_self] at hflag
  obtain ⟨row, hrow, rfl⟩ := List.mem_map.mp hflag
  exact hbars row hrow

theorem alwaysFalseNode_evaluated {built : List IndicatorSpec} (h : Sound F built b)
    (he : Evaluated trial frame latents b table values) {current : String} {level : ℕ}
    (hr : Refers b.nodes signalTypes current level) {signal : List Bool}
    (hreads : ReadsSignal values current signal) :
    ∃ values' silent, Evaluated trial frame latents (b.alwaysFalseNode current).2 table values' ∧
      Keeps values values' ∧ ReadsSignal values' (b.alwaysFalseNode current).1 silent ∧
      Silent silent := by
  have hplain : PlainParams .logicNot [] := ⟨by decide, by simp⟩
  obtain ⟨hnot, -⟩ := addNode_extends h (by simp) hplain (accepts_signals (by decide) rfl)
    (by simp [nodeSpec]) (List.Forall₂.cons hr .nil)
  have hdenial : evaluateKind frame latents .logicNot
      (resolveNodeParams trial ⟨nodeName (b.nodeCounter + 1), .logicNot, [], [current], by simp⟩)
      [flags signal] = .ok (outBools (signal.map fun flag => !flag)) := by
    show Except.ok (outBools ((flags signal).signals.map fun flag => !flag)) = _
    rw [signals_flags]
  obtain ⟨values₁, he₁, hkeeps₁, hvalues₁⟩ :=
    addNode_evaluated h he (.cons hreads.reads .nil) hdenial
  have hnotReads : ReadsSignal values₁ (nodeName (b.nodeCounter + 1)) _ :=
    readsSignal_node hvalues₁
  obtain ⟨values', he', hkeeps, hvalues⟩ := addNode_evaluated hnot.sound he₁
    (.cons (hreads.keep hkeeps₁).reads (.cons hnotReads.reads .nil))
    (evaluate_join (.all []) _ signal _)
  refine ⟨values', _, he', hkeeps₁.trans hkeeps, readsSignal_node hvalues,
    silent_of_forall fun flag hflag => ?_⟩
  rw [List.zipWith_map_right, List.zipWith_self] at hflag
  obtain ⟨flag, -, rfl⟩ := List.mem_map.mp hflag
  cases flag <;> rfl

theorem compileConditionGroup_evaluated (hnd : (spec.indicators.map IndicatorSpec.id).Nodup)
    (htable : table.map Prod.fst = spec.indicators)
    (hlengths : ∀ entry ∈ table, ∀ s ∈ entry.2, s.2.length = frame.rows.length)
    (h : Sound F spec.indicators b) (he : Evaluated trial frame latents b table values)
    {group : ConditionGroup} {label : String}
    (hbars : label = "exit" → comparisonConditions group = [] →
      ∀ row ∈ frame.rows, lt row.high row.close = false)
    (hs : b.compileConditionGroup spec group label = .ok (id, b')) :
    ∃ values' signal signals, Evaluated trial frame latents b' table values' ∧
      Keeps values values' ∧ group.signals spec frame table = some signals ∧
      ReadsSignal values' id signal ∧
      ∀ bar, signalAt (some signal) bar = group.holds signals bar := by
  unfold Builder.compileConditionGroup at hs
  unfold ConditionGroup.signals
  cases hconditions : comparisonConditions group with
  | nil =>
    simp only [hconditions] at hs
    by_cases hexit : label = "exit" ∧ exitRuleConditions group ≠ []
    · rw [if_pos hexit] at hs
      obtain ⟨values', signal, he', hkeeps, hreads, hsilent⟩ :=
        alwaysFalseOhlc_evaluated h he (hbars hexit.1 hconditions) hs
      exact ⟨values', signal, [], he', hkeeps, rfl, hreads, hsilent⟩
    · rw [if_neg hexit] at hs
      cases hs
  | cons first rest =>
    simp only [hconditions, bind_eq_ok] at hs
    obtain ⟨⟨refs, b₁⟩, hrefs, hs⟩ := hs
    have hbound : ∀ condition ∈ first :: rest, comparisonLevel spec condition ≤
        joinedLevel spec (comparisonLevel spec first) rest := by
      refine List.forall_mem_cons.mpr ⟨le_joinedLevel spec rest _, fun condition hc => ?_⟩
      exact comparisonLevel_le_joinedLevel spec hc _
    obtain ⟨-, hext, hrefers⟩ := compileComparisons_extends hnd h hrefs hbound
    obtain ⟨values₁, signals, he₁, hkeeps₁, hsignals, hreads, hsized⟩ :=
      compileComparisons_evaluated hnd htable hlengths h he hrefs
    obtain _ | ⟨hfirst, hrest⟩ := hrefers
    obtain _ | ⟨hfirstReads, hrestReads⟩ := hreads
    obtain ⟨hlength, hlengths'⟩ := List.forall_mem_cons.mp hsized
    obtain ⟨rfl, rfl⟩ := Prod.mk.inj (pure_eq_ok.mp hs)
    obtain ⟨values', he', hkeeps, hjoined⟩ :=
      combineBoolNodes_evaluated hext.sound hfirst hrest he₁ hfirstReads hrestReads
    exact ⟨values', _, _, he', hkeeps₁.trans hkeeps, hsignals, hjoined,
      group.holds_joined hlength hlengths'⟩

end Comparisons

end QBackend.StrategyBuilder
