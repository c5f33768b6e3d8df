import QBackend.RepairRuns

/-!
# Repairs end with a valid genome

The attempts of a repair one after the other: each of them gives a valid genome with the nodes, the
kinds and the edges of the one it was given, and none raises, as long as the passes over the
thresholds and the periods that the attempts come to are safe. A threshold that reads a kind without
a port `out` is not, although the validator accepts it.
-/

namespace QBackend.GenomeDsl

open FallibleSteps

section Totality

variable {F : Type} [ProbeFloat F] {draws : RepairDraws F} {genome current : Genome}
  {frame : Frame F} {limits : Limits} {minSignals : ℤ} {attempt maxAttempts : ℕ}

/-! ## Attempts -/

theorem repairOperation_guarded (hprobeable : Probeable genome frame limits)
    (hkept : Kept genome F limits current)
    (hrecenter : attempt % 3 = 0 → RecenterSafe (draws.random attempt) frame current)
    (hshorten : attempt % 3 = 1 → ShortenSafe current) :
    Guarded Caught (repairOperation draws attempt current frame limits) (Kept genome F limits) := by
  unfold repairOperation
  split
  next h => exact repairRecenterThresholds_guarded hprobeable hkept (hrecenter h)
  next h => exact repairShortenLookbacks_guarded hprobeable hkept (hshorten h)
  next => exact repairRelaxLogicAnd_guarded hprobeable hkept

theorem repairAttempt_ok (hprobeable : Probeable genome frame limits)
    (hkept : Kept genome F limits current)
    (hrecenter : attempt % 3 = 0 → RecenterSafe (draws.random attempt) frame current)
    (hshorten : attempt % 3 = 1 → ShortenSafe current) :
    ∃ outcome, repairAttempt draws frame minSignals limits current attempt = .ok outcome ∧
      Kept genome F limits (outcome.elim id id) := by
  have hguarded : Guarded Caught
      (do
        let candidate ← repairOperation draws attempt current frame limits
        let stats ← genomeSignalActivity candidate frame minSignals []
        pure (if stats.isTradeable then .inl candidate else .inr candidate) :
        Except SearchError (Genome ⊕ Genome))
      fun outcome => Kept genome F limits (outcome.elim id id) := by
    refine (repairOperation_guarded hprobeable hkept hrecenter hshorten).bind ?_
    intro candidate _ hcandidate
    refine (hcandidate.1.activity_guarded hprobeable minSignals).bind fun stats _ _ => ?_
    cases stats.isTradeable
    · exact guarded_pure hcandidate
    · exact guarded_pure hcandidate
  obtain ⟨outcome, hok, houtcome⟩ | ⟨e, herror, hcaught⟩ := hguarded
  · refine ⟨outcome, ?_, houtcome⟩
    simp only [repairAttempt, hok]
  · refine ⟨.inr current, ?_, hkept⟩
    have hcatch : e.caught = true := hcaught
    simp only [repairAttempt, herror, hcatch, if_true]

/-! ## Runs -/

variable (draws genome frame limits minSignals) in
/-- The genomes that the attempts come to. -/
inductive RepairReaches : ℕ → Genome → Prop
  | start : RepairReaches 0 genome
  | next {attempt : ℕ} {current next : Genome} (h : RepairReaches attempt current)
    (hnext : repairAttempt draws frame minSignals limits current attempt = .ok (.inr next)) :
    RepairReaches (attempt + 1) next

variable (draws genome frame limits minSignals maxAttempts) in
/-- The columns that are read are written, truth values are not computed with, and the passes over
the thresholds and the periods of the genomes that the attempts come to are safe. -/
structure RepairSafe : Prop where
  reads : ReadsColumns genome
  truth : TruthKeptApart genome
  recenter : ∀ attempt current, attempt < maxAttempts →
    RepairReaches draws genome frame limits minSignals attempt current → attempt % 3 = 0 →
    RecenterSafe (draws.random attempt) frame current
  shorten : ∀ attempt current, attempt < maxAttempts →
    RepairReaches draws genome frame limits minSignals attempt current → attempt % 3 = 1 →
    ShortenSafe current

theorem repairAttempts_ok (hprobeable : Probeable genome frame limits)
    (hsafe : RepairSafe draws genome frame limits minSignals maxAttempts) {count : ℕ}
    (hcount : attempt + count = maxAttempts)
    (hreached : RepairReaches draws genome frame limits minSignals attempt current)
    (hkept : Kept genome F limits current) :
    ∃ repaired, repairAttempts draws frame minSignals limits (List.range' attempt count) current =
      .ok repaired ∧ Kept genome F limits repaired := by
  induction count generalizing attempt current with
  | zero => exact ⟨current, rfl, hkept⟩
  | succ count ih =>
    have hlt : attempt < maxAttempts := by omega
    obtain ⟨outcome, hok, houtcome⟩ :
        ∃ outcome, repairAttempt draws frame minSignals limits current attempt = .ok outcome ∧
          Kept genome F limits (outcome.elim id id) :=
      repairAttempt_ok hprobeable hkept (hsafe.recenter attempt current hlt hreached)
        (hsafe.shorten attempt current hlt hreached)
    rw [List.range'_succ]
    unfold repairAttempts
    cases outcome with
    | inl candidate => exact ⟨candidate, bind_of_ok hok rfl, houtcome⟩
    | inr next =>
      obtain ⟨repaired, hrest, hrepaired⟩ := ih (by omega) (.next hreached hok) houtcome
      exact ⟨repaired, bind_of_ok hok hrest, hrepaired⟩

/-- The genome is evaluated on the frame with the defaults of its parameters. -/
def Evaluates (genome : Genome) (frame : Frame F) : Prop :=
  ∃ params indicators, defaultTrialParams genome = .ok params ∧
    probeIndicators genome params frame = .ok indicators

theorem plan_succeeds_of_fresh {strategy : Strategy F} {indicators : Indicators F}
    (h : freshIndicators strategy frame = .ok indicators) : Succeeds strategy.plan := by
  unfold freshIndicators computeIndicators at h
  cases hplan : strategy.plan with
  | ok plan => exact ⟨plan, rfl⟩
  | error e =>
    rw [hplan] at h
    cases h

theorem Evaluates.activity_ok (hevaluates : Evaluates genome frame) (minSignals : ℤ) :
    ∃ stats, genomeSignalActivity genome frame minSignals [] = .ok stats := by
  obtain ⟨params, indicators, hparams, hprobe⟩ := hevaluates
  unfold genomeSignalActivity
  by_cases hrows : frame.rows = []
  · rw [if_pos hrows]
    exact ⟨_, rfl⟩
  · rw [if_neg hrows]
    obtain ⟨_, haccepts, hrun⟩ := bind_eq_ok.mp hprobe
    have haccepted : Accepted F genome := mapError_eq_ok.mp haccepts
    obtain ⟨plan, hplan⟩ := plan_succeeds_of_fresh (mapError_eq_ok.mp hrun)
    rw [haccepted.plan_eq] at hplan
    exact ⟨_, bind_of_ok hparams (bind_of_ok hprobe (bind_of_ok (mapError_eq_ok.mpr hplan) rfl))⟩

theorem Evaluates.probeable
    (hvalid : validateGenome F genome limits.maxDepth limits.maxNodes = .ok ())
    (hevaluates : Evaluates genome frame) (hreads : ReadsColumns genome) :
    Probeable genome frame limits := by
  obtain ⟨params, indicators, hparams, hprobe⟩ := hevaluates
  obtain ⟨_, haccepts, hrun⟩ := bind_eq_ok.mp hprobe
  have haccepted : Accepted F genome := mapError_eq_ok.mp haccepts
  have hfresh := mapError_eq_ok.mp hrun
  have hdefaults := defaults_of_ok hparams
  have hruns := (haccepted.runs_iff fun l hl => by cases hl).mp
    ⟨plan_succeeds_of_fresh hfresh, indicators, hfresh⟩
  exact ⟨hvalid, haccepted, (RepairOf.refl genome).runs haccepted hruns hreads hdefaults
    (fun _ _ hnone => by cases hnone), hreads⟩

/-- A valid genome that is evaluated on the frame is repaired: nothing is raised, and the genome that
is returned is valid within the same limits and has the same nodes, kinds and edges. -/
theorem repair_total (hvalid : validateGenome F genome limits.maxDepth limits.maxNodes = .ok ())
    (hevaluates : Evaluates genome frame)
    (hsafe : RepairSafe draws genome frame limits minSignals maxAttempts) :
    ∃ repaired, repairGenome draws genome frame minSignals limits maxAttempts = .ok repaired ∧
      validateGenome F repaired limits.maxDepth limits.maxNodes = .ok () ∧
      RepairOf F genome repaired := by
  have hprobeable := hevaluates.probeable hvalid hsafe.reads
  have hkept : Kept genome F limits genome := ⟨.refl genome, hvalid⟩
  obtain ⟨stats, hstats⟩ := hevaluates.activity_ok minSignals
  unfold repairGenome
  cases htradeable : stats.isTradeable with
  | true =>
    refine ⟨genome, ?_, hvalid, .refl genome⟩
    exact bind_of_ok hstats (by rw [if_pos htradeable]; rfl)
  | false =>
    obtain ⟨repaired, hrepaired, hrepair, hok⟩ := repairAttempts_ok hprobeable hsafe
      (Nat.zero_add maxAttempts) .start hkept
    refine ⟨repaired, bind_of_ok hstats ?_, hok, hrepair⟩
    rw [if_neg (by rw [htradeable]; exact Bool.false_ne_true), List.range_eq_range']
    exact hrepaired

end Totality

/-! ## A probe of three bars -/

section Probe

/-- Numbers with one that is not, of which the quantiles are interpolated. -/
def ProbePrice : Type := Option ℚ

def ProbePrice.quantile (xs : List ProbePrice) (q : ℚ) : ProbePrice :=
  let sorted := (xs.filterMap id : List ℚ).insertionSort (· ≤ ·)
  let place : ℚ := (sorted.length - 1) * q
  let low := sorted[⌊place⌋.toNat]?
  let high := sorted[⌈place⌉.toNat]?
  low.bind fun a => high.map fun b => a + (b - a) * (place - ⌊place⌋)

instance probePrices : PriceFloat ProbePrice where
  nan := none
  isNaN := Option.isNone
  ofRat := some
  add := exactPrices.add
  sub := exactPrices.sub
  mul := exactPrices.mul
  div := exactPrices.div
  abs := exactPrices.abs
  log := exactPrices.log
  sqrt := exactPrices.sqrt
  sign := exactPrices.sign
  lt := exactPrices.lt
  le := exactPrices.le
  ofString s := if s = "nan" then some none else none
  reprRat := toString

instance : ProbeFloat ProbePrice where
  quantile := ProbePrice.quantile
  boolQuantile _ _ := .error (.typeError
    "numpy boolean subtract, the - operator, is not supported, use the bitwise_xor")
  literal x := Option.casesOn x (.str "nan") .float
  toFloat_literal x := by
    cases x with
    | none => rfl
    | some q => rfl

def probeRow (bar : ℤ) (close : ℚ) : Row ProbePrice where
  time := bar * minute
  opn := some 2
  high := some 5
  low := some 1
  close := some close
  volume := some 1
  exog _ := none

/-- The close rises from two to four. -/
def probeFrame : Frame ProbePrice where
  rows := [probeRow 0 2, probeRow 1 3, probeRow 2 4]
  spaced := by decide +kernel
  opens := by
    intro r hr
    simp only [List.mem_cons, List.not_mem_nil, or_false] at hr
    rcases hr with rfl | rfl | rfl <;> rfl

def crossingNode (ref : String) : GenomeNode where
  id := "cross"
  kind := .cmpCrossAbove
  params := [("threshold", .lit (.int 9))]
  inputs := [ref]

/-- A source with a crossing of it, which enters and exits. -/
def crossingGenome (source : GenomeNode) (ref : String) : Genome where
  nodes := [source, crossingNode ref]
  entryLong := "cross"
  entryShort := "cross"
  exitLong := "cross"
  exitShort := "cross"

def closeNode : GenomeNode where
  id := "close"
  kind := .sourceClose

theorem nodup_channelParams :
    ([("period", ParamValue.lit (.int 1))].map Prod.fst).Nodup :=
  List.nodup_singleton _

def channelNode : GenomeNode where
  id := "channel"
  kind := .indDonchian
  params := [("period", .lit (.int 1))]
  keysNodup := nodup_channelParams

def probeDraws : RepairDraws ProbePrice where
  random _ _ := some (1 / 2)
  choice _ _ := 0

def probeLimits : Limits := ⟨4, 3⟩

def Column.isNumbers {F : Type} : Column F → Bool
  | .numbers _ => true
  | .bools _ => false

/-- The exception of a search. -/
def raisedBy {α : Type} : Except SearchError α → Option SearchError
  | .ok _ => none
  | .error e => some e

theorem reaches_tradeable {attempt : ℕ} {current : Genome}
    (h : RepairReaches probeDraws (crossingGenome closeNode "close") probeFrame probeLimits 1 attempt
      current) : attempt = 0 ∧ current = crossingGenome closeNode "close" := by
  induction h with
  | start => exact ⟨rfl, rfl⟩
  | next _ hnext ih =>
    obtain ⟨rfl, rfl⟩ := ih
    -- the first attempt returns
    have hreturns : ((repairAttempt probeDraws probeFrame 1 probeLimits
        (crossingGenome closeNode "close") 0).toOption.all Sum.isLeft) = true := by decide +kernel
    rw [hnext] at hreturns
    cases hreturns

theorem recenterSafe_close (random : String → ProbePrice) :
    RecenterSafe random probeFrame (crossingGenome closeNode "close") := by
  intro params before node after s hparams hsplit hbefore series hcross hfound
  obtain rfl : [] = params := Except.ok.inj hparams
  cases before with
  | nil =>
    obtain ⟨rfl, -⟩ := List.cons.inj hsplit
    cases hcross
  | cons first before =>
    obtain ⟨rfl, hrest⟩ := List.cons.inj hsplit
    cases before with
    | nil =>
      obtain ⟨rfl, -⟩ := List.cons.inj hrest
      obtain rfl : ⟨crossingGenome closeNode "close", false⟩ = s := Except.ok.inj hbefore
      refine ⟨?_, ?_⟩
      · have hnumbers : ((parentSeries (crossingGenome closeNode "close") probeFrame
            (crossingNode "close") []).toOption.all fun found =>
              found.all Column.isNumbers) = true := by decide +kernel
        rw [show parentSeries (crossingGenome closeNode "close") probeFrame
          (crossingNode "close") [] = .ok (some series) from hfound] at hnumbers
        cases series with
        | numbers xs => exact ⟨xs, rfl⟩
        | bools bs => cases hnumbers
      · rintro source hsource
        obtain rfl : closeNode = source := Option.some.inj hsource
        rfl
    | cons second before =>
      obtain ⟨-, hnone⟩ := List.cons.inj hrest
      cases before with
      | nil => cases hnone
      | cons third before => cases hnone

theorem repairSafe_close : RepairSafe probeDraws (crossingGenome closeNode "close") probeFrame
    probeLimits 1 8 where
  reads := by
    intro before node after hsplit raw hraw
    have hsorted : (crossingGenome closeNode "close").sortedNodes =
      [closeNode, crossingNode "close"] := by rfl
    rw [hsorted] at hsplit
    cases before with
    | nil =>
      obtain ⟨rfl, -⟩ := List.cons.inj hsplit
      cases hraw
    | cons first before =>
      obtain ⟨rfl, hrest⟩ := List.cons.inj hsplit
      cases before with
      | nil =>
        obtain ⟨rfl, -⟩ := List.cons.inj hrest
        obtain rfl := List.mem_singleton.mp hraw
        decide +kernel
      | cons second before =>
        obtain ⟨-, hnone⟩ := List.cons.inj hrest
        cases before with
        | nil => cases hnone
        | cons third before => cases hnone
  truth := by unfold TruthKeptApart; decide +kernel
  recenter attempt current _ h _ := by
    obtain ⟨rfl, rfl⟩ := reaches_tradeable h
    exact recenterSafe_close _
  shorten attempt current _ h hshortens := by
    obtain ⟨rfl, rfl⟩ := reaches_tradeable h
    cases hshortens

theorem evaluates_close : Evaluates (crossingGenome closeNode "close") probeFrame := by
  obtain ⟨indicators, h⟩ := exists_ok_of_isSome
    (x := probeIndicators (crossingGenome closeNode "close") [] probeFrame) (by decide +kernel)
  exact ⟨[], indicators, rfl, h⟩

theorem repair_total_close :
    ∃ repaired, repairGenome probeDraws (crossingGenome closeNode "close") probeFrame 1
        probeLimits 8 = .ok repaired ∧
      validateGenome ProbePrice repaired probeLimits.maxDepth probeLimits.maxNodes = .ok () ∧
      RepairOf ProbePrice (crossingGenome closeNode "close") repaired :=
  repair_total (by decide +kernel) evaluates_close repairSafe_close

/-- The crossing of an upper channel is valid and evaluated, and cannot be repaired. -/
theorem repair_raises :
    validateGenome ProbePrice (crossingGenome channelNode "channel:donchian_upper")
        probeLimits.maxDepth probeLimits.maxNodes = .ok () ∧
      Evaluates (crossingGenome channelNode "channel:donchian_upper") probeFrame ∧
      raisedBy (repairGenome probeDraws (crossingGenome channelNode "channel:donchian_upper")
        probeFrame 1 probeLimits 1) = some (.raised (.keyError "out")) := by
  refine ⟨by decide +kernel, ?_, by decide +kernel⟩
  obtain ⟨indicators, h⟩ := exists_ok_of_isSome
    (x := probeIndicators (crossingGenome channelNode "channel:donchian_upper") [] probeFrame)
    (by decide +kernel)
  exact ⟨[], indicators, rfl, h⟩

end Probe

end QBackend.GenomeDsl
