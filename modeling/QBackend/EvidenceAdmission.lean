import QBackend.EvidenceFolds
import QBackend.RedundancyClusters
import Mathlib.Algebra.Order.Ring.Rat

/-!
# The admission of features

The scores of `features/scoring.py`, the decisions of `features/evidence.py` and the run of
`features/evidence_service.py` for one target. The statistics of a feature are parameters. A feature
that does not represent its cluster is rejected before its thresholds and scores are looked at, so a
feature is admitted only where the representative passes.
-/

namespace QBackend.Evidence

variable {Id : Type} [LinearOrder Id]

/-! ## Scores -/

inductive LeakageStatus where
  | clean | suspect | unverified
  deriving DecidableEq, Repr

/-- What scoring reads of an evaluation; a value that is not a number is none. -/
structure FeatureEvaluation (Id : Type) where
  featureId : Id
  rankIc : Option ℚ
  stability : Option ℚ
  regimeIcs : List (Option ℚ)
  leakageStatus : LeakageStatus

structure FeatureScore (Id : Type) where
  featureId : Id
  globalScore : ℚ
  clusterId : ℕ
  isRepresentative : Bool

/-- `_regime_consistency` -/
def regimeConsistency (regimeIcs : List (Option ℚ)) : ℚ :=
  match regimeIcs.filterMap id with
  | first :: second :: rest =>
    let values := second :: rest
    let spread := values.foldl max first - values.foldl min first
    1 - min (spread / 2) 1
  | _ => 0

/-- `_compute_global_score`, with the weights and the leakage penalty of the module. -/
def computeGlobalScore (evaluation : FeatureEvaluation Id) (clusterSize : ℕ) : ℚ :=
  let rankTerm := (evaluation.rankIc.map abs).getD 0
  let stabilityTerm := evaluation.stability.getD 0
  let score := 4 / 10 * rankTerm + 3 / 10 * stabilityTerm +
    15 / 100 * regimeConsistency evaluation.regimeIcs + 15 / 100 * (1 / (max clusterSize 1 : ℕ))
  let score := if evaluation.leakageStatus = .clean then score else score * (1 / 2)
  min (max score 0) 1

/-- The cluster that has the feature; zero for a feature in no cluster. -/
def clusterIdOf (clusters : List (RedundancyCluster Id)) (fid : Id) : ℕ :=
  ((clusters.find? fun cluster => fid ∈ cluster.featureIds).map RedundancyCluster.clusterId).getD 0

/-- `cluster_size_by_id.get(cluster_id, 1)` -/
def clusterSizeOf (clusters : List (RedundancyCluster Id)) (clusterId : ℕ) : ℕ :=
  ((clusters.find? fun cluster => cluster.clusterId = clusterId).map
    fun cluster => cluster.featureIds.length).getD 1

/-- `representative_by_cluster.get(cluster_id, fid)` -/
def representativeOf (clusters : List (RedundancyCluster Id)) (clusterId : ℕ) (fid : Id) : Id :=
  ((clusters.find? fun cluster => cluster.clusterId = clusterId).map
    RedundancyCluster.representative).getD fid

/-- The representative of a cluster by score, with the first id among equal scores. -/
def bestScored (scores : List (FeatureScore Id)) (clusterId : ℕ) : Option Id :=
  let members := (scores.filter fun item => item.clusterId = clusterId).insertionSort fun a b =>
    b.globalScore < a.globalScore ∨ b.globalScore = a.globalScore ∧ a.featureId ≤ b.featureId
  members.head?.map FeatureScore.featureId

/-- `score_features`; the flag it sets is not the representative of the cluster. -/
def scoreFeatures (evaluations : List (FeatureEvaluation Id))
    (clusters : List (RedundancyCluster Id)) : List (FeatureScore Id) :=
  let sorted := evaluations.insertionSort fun a b => a.featureId ≤ b.featureId
  let provisional := sorted.map fun evaluation : FeatureEvaluation Id =>
    let clusterId := clusterIdOf clusters evaluation.featureId
    { featureId := evaluation.featureId
      globalScore := computeGlobalScore evaluation (clusterSizeOf clusters clusterId)
      clusterId
      isRepresentative := false : FeatureScore Id }
  provisional.map fun item =>
    { item with isRepresentative := bestScored provisional item.clusterId = some item.featureId }

/-- `score_by_feature.get(fid, 0.0)` -/
def scoreOf (scores : List (FeatureScore Id)) (fid : Id) : ℚ :=
  ((scores.reverse.find? fun item => item.featureId = fid).map FeatureScore.globalScore).getD 0

/-! ## Decisions -/

inductive EvidenceDecision where
  | admitted | rejected | inconclusive
  deriving DecidableEq, Repr

/-- A reason, with the numbers of its text. -/
inductive RejectionReason where
  | emptyEvidenceSegment
  | insufficientObservations (count minimum : ℤ)
  | insufficientFolds (count minimum : ℤ)
  | insufficientValidFolds (count minimum : ℤ)
  | leakageSuspect
  | redundantNonRepresentative
  | weakRankIc (rankIc : Option ℚ)
  | unstableSign (consistency minimum : ℚ)
  | highDispersion (dispersion maximum : ℚ)
  | lowDeflatedScore (score minimum : ℚ)
  deriving DecidableEq

/-- The thresholds that admission reads. -/
structure EvidenceThresholds where
  minObs : ℤ
  minFolds : ℤ
  minValidFolds : ℤ
  minAbsRankIc : ℚ
  minSignConsistency : ℚ
  maxRankIcDispersion : ℚ
  minDeflatedScore : ℚ

/-- The statistics of a feature on the evidence segment. -/
structure EvidenceMetrics where
  nObs : ℤ
  foldDiagnostics : List (FoldDiagnostic ℚ)
  rankIc : Option ℚ
  signConsistency : ℚ
  effectDispersion : Option ℚ
  deflatedScore : ℚ

section Decisions

variable (thresholds : EvidenceThresholds)

def EvidenceMetrics.validFolds (metrics : EvidenceMetrics) : List (FoldDiagnostic ℚ) :=
  metrics.foldDiagnostics.filter fun item => item.rankIc.isSome && 2 ≤ item.nObs

/-- The reasons for which a representative is rejected. -/
def thresholdReasons (metrics : EvidenceMetrics) : List RejectionReason :=
  (if metrics.rankIc.all fun rankIc => |rankIc| < thresholds.minAbsRankIc then
    [.weakRankIc metrics.rankIc] else []) ++
  (if metrics.signConsistency < thresholds.minSignConsistency then
    [.unstableSign metrics.signConsistency thresholds.minSignConsistency] else []) ++
  (match metrics.effectDispersion with
    | some dispersion => if thresholds.maxRankIcDispersion < dispersion then
        [.highDispersion dispersion thresholds.maxRankIcDispersion] else []
    | none => []) ++
  (if metrics.deflatedScore < thresholds.minDeflatedScore then
    [.lowDeflatedScore metrics.deflatedScore thresholds.minDeflatedScore] else [])

/-- `decide_admission` -/
def decideAdmission (metrics : EvidenceMetrics) (leakageStatus : LeakageStatus)
    (isRepresentative : Bool) : EvidenceDecision × List RejectionReason :=
  if metrics.nObs < thresholds.minObs then
    (.inconclusive, [.insufficientObservations metrics.nObs thresholds.minObs])
  else if metrics.foldDiagnostics.length < thresholds.minFolds then
    (.inconclusive, [.insufficientFolds metrics.foldDiagnostics.length thresholds.minFolds])
  else if metrics.validFolds.length < thresholds.minValidFolds then
    (.inconclusive, [.insufficientValidFolds metrics.validFolds.length thresholds.minValidFolds])
  else if leakageStatus = .suspect then (.rejected, [.leakageSuspect])
  else if !isRepresentative then (.rejected, [.redundantNonRepresentative])
  else if thresholdReasons thresholds metrics = [] then (.admitted, [])
  else (.rejected, thresholdReasons thresholds metrics)

structure FeatureEvidence (Id : Type) where
  featureId : Id
  decision : EvidenceDecision
  rejectionReasons : List RejectionReason
  leakageStatus : LeakageStatus
  isRepresentative : Bool
  clusterId : ℕ

/-- `evaluate_feature_evidence`; an empty segment has no statistics. -/
def evaluateFeatureEvidence (featureId : Id) (metrics : Option EvidenceMetrics)
    (leakageStatus : LeakageStatus) (isRepresentative : Bool) (clusterId : ℕ) :
    FeatureEvidence Id :=
  let decided : EvidenceDecision × List RejectionReason := match metrics with
    | none => (.inconclusive, [.emptyEvidenceSegment])
    | some metrics => decideAdmission thresholds metrics leakageStatus isRepresentative
  { featureId, decision := decided.1, rejectionReasons := decided.2, leakageStatus
    isRepresentative, clusterId }

/-- The step of `apply_redundancy_decisions` for one feature. -/
def applyRedundancy (clusters : List (RedundancyCluster Id)) (scores : List (FeatureScore Id))
    (evidence : FeatureEvidence Id) : FeatureEvidence Id :=
  let representative := representativeOf clusters evidence.clusterId evidence.featureId
  let isRepresentative := decide (evidence.featureId = representative)
  if evidence.decision ≠ .admitted then { evidence with isRepresentative }
  else if !isRepresentative &&
      scoreOf scores evidence.featureId ≤ scoreOf scores representative then
    { evidence with
      isRepresentative := false
      decision := .rejected
      rejectionReasons := [.redundantNonRepresentative] }
  else { evidence with isRepresentative }

def applyRedundancyDecisions (evidences : List (FeatureEvidence Id))
    (clusters : List (RedundancyCluster Id)) (scores : List (FeatureScore Id)) :
    List (FeatureEvidence Id) :=
  evidences.map (applyRedundancy clusters scores)

/-- The evidence of `run_profile_feature_evidence` for one target. -/
def targetEvidence (metrics : Id → Option EvidenceMetrics)
    (evaluations : List (FeatureEvaluation Id)) (clusters : List (RedundancyCluster Id))
    (scores : List (FeatureScore Id)) : List (FeatureEvidence Id) :=
  let batch := evaluations.map fun evaluation =>
    let clusterId := clusterIdOf clusters evaluation.featureId
    evaluateFeatureEvidence thresholds evaluation.featureId (metrics evaluation.featureId)
      evaluation.leakageStatus
      (evaluation.featureId = representativeOf clusters clusterId evaluation.featureId) clusterId
  applyRedundancyDecisions batch clusters scores

/-- The run with the clusters and the scores that it computes. -/
def profileEvidence (metrics : Id → Option EvidenceMetrics)
    (evaluations : List (FeatureEvaluation Id)) (features : List Id) (rowCount : ℕ)
    (corr : Id → Id → Option ℚ) (correlationThreshold : ℚ) : List (FeatureEvidence Id) :=
  let clusters := clusterRedundant features rowCount corr correlationThreshold
  targetEvidence thresholds metrics evaluations clusters (scoreFeatures evaluations clusters)

end Decisions

/-! ## Justified rejections -/

section Justified

variable (thresholds : EvidenceThresholds) (metrics : Id → Option EvidenceMetrics)

/-- Observations, folds and valid folds are enough, and the feature is not suspect. -/
def Enough (m : EvidenceMetrics) (leakageStatus : LeakageStatus) : Prop :=
  thresholds.minObs ≤ m.nObs ∧ thresholds.minFolds ≤ m.foldDiagnostics.length ∧
    thresholds.minValidFolds ≤ m.validFolds.length ∧ leakageStatus ≠ .suspect

instance (m : EvidenceMetrics) (leakageStatus : LeakageStatus) :
    Decidable (Enough thresholds m leakageStatus) :=
  inferInstanceAs (Decidable (thresholds.minObs ≤ m.nObs ∧
    thresholds.minFolds ≤ m.foldDiagnostics.length ∧
    thresholds.minValidFolds ≤ m.validFolds.length ∧ leakageStatus ≠ .suspect))

def Conclusive (evaluation : FeatureEvaluation Id) : Prop :=
  ∃ m, metrics evaluation.featureId = some m ∧ Enough thresholds m evaluation.leakageStatus

/-- A feature that passes all statistical thresholds. -/
def Passes (evaluation : FeatureEvaluation Id) : Prop :=
  ∃ m, metrics evaluation.featureId = some m ∧ Enough thresholds m evaluation.leakageStatus ∧
    thresholdReasons thresholds m = []

/-- What the evidence of a run is to satisfy for its clusters and scores. -/
structure Justified (evaluations : List (FeatureEvaluation Id))
    (clusters : List (RedundancyCluster Id)) (scores : List (FeatureScore Id))
    (evidences : List (FeatureEvidence Id)) : Prop where
  rejected : ∀ e ∈ evidences, .redundantNonRepresentative ∈ e.rejectionReasons →
    ∀ c ∈ clusters, e.featureId ∈ c.featureIds → ∃ f ∈ evidences, f.featureId ≠ e.featureId ∧
      f.featureId ∈ c.featureIds ∧ f.decision = .admitted ∧
      scoreOf scores e.featureId ≤ scoreOf scores f.featureId
  admitted_unique : ∀ c ∈ clusters, ∀ e ∈ evidences, ∀ f ∈ evidences,
    e.featureId ∈ c.featureIds → f.featureId ∈ c.featureIds → e.decision = .admitted →
    f.decision = .admitted → e.featureId = f.featureId
  survives : ∀ c ∈ clusters, ∀ evaluation ∈ evaluations, evaluation.featureId ∈ c.featureIds →
    Passes thresholds metrics evaluation →
    ∃ e ∈ evidences, e.featureId ∈ c.featureIds ∧ e.decision = .admitted

/-- The representative of a cluster passes where another member is conclusive, and its score is not
lower. -/
def RepresentativesPass (evaluations : List (FeatureEvaluation Id))
    (clusters : List (RedundancyCluster Id)) (scores : List (FeatureScore Id)) : Prop :=
  ∀ c ∈ clusters, ∀ evaluation ∈ evaluations, evaluation.featureId ∈ c.featureIds →
    evaluation.featureId ≠ c.representative → Conclusive thresholds metrics evaluation →
    ∃ peer ∈ evaluations, peer.featureId = c.representative ∧ Passes thresholds metrics peer ∧
      scoreOf scores evaluation.featureId ≤ scoreOf scores c.representative

end Justified

/-! ## One feature -/

section OneFeature

variable {thresholds : EvidenceThresholds} {metrics : Id → Option EvidenceMetrics}
  {features : List Id} {fid : Id}

omit [LinearOrder Id] in
theorem Clustering.find_cluster (clustering : Clustering features) {c : RedundancyCluster Id}
    (hc : c ∈ clustering.clusters) :
    (clustering.clusters.find? fun cluster => cluster.clusterId = c.clusterId) = some c := by
  have hids := clustering.ids_nodup
  generalize clustering.clusters = clusters at hc hids
  induction clusters with
  | nil => cases hc
  | cons first rest ih =>
    rw [List.map_cons, List.nodup_cons] at hids
    by_cases heq : first.clusterId = c.clusterId
    · rw [List.find?_cons_of_pos (by simpa using heq)]
      obtain rfl | hrest := List.mem_cons.mp hc
      · rfl
      · exact absurd (heq ▸ List.mem_map_of_mem hrest) hids.1
    · rw [List.find?_cons_of_neg (by simpa using heq)]
      obtain rfl | hrest := List.mem_cons.mp hc
      · exact absurd rfl heq
      · exact ih hrest hids.2

theorem Clustering.clusterIdOf_eq (clustering : Clustering features) (hnodup : features.Nodup)
    {c : RedundancyCluster Id} (hc : c ∈ clustering.clusters) (hfid : fid ∈ c.featureIds) :
    clusterIdOf clustering.clusters fid = c.clusterId := by
  have hflat := clustering.members_perm.nodup_iff.mpr hnodup
  unfold clusterIdOf
  generalize clustering.clusters = clusters at hc hflat
  induction clusters with
  | nil => cases hc
  | cons first rest ih =>
    rw [List.map_cons, List.flatten_cons, List.nodup_append] at hflat
    by_cases hfirst : fid ∈ first.featureIds
    · rw [List.find?_cons_of_pos (by simpa using hfirst)]
      obtain rfl | hrest := List.mem_cons.mp hc
      · rfl
      · have hmem : fid ∈ (rest.map RedundancyCluster.featureIds).flatten :=
          List.mem_flatten.mpr ⟨_, List.mem_map_of_mem hrest, hfid⟩
        exact absurd rfl (hflat.2.2 fid hfirst fid hmem)
    · rw [List.find?_cons_of_neg (by simpa using hfirst)]
      obtain rfl | hrest := List.mem_cons.mp hc
      · exact absurd hfid hfirst
      · exact ih hrest hflat.2.1

theorem Clustering.representativeOf_eq (clustering : Clustering features)
    (hnodup : features.Nodup) {c : RedundancyCluster Id} (hc : c ∈ clustering.clusters)
    (hfid : fid ∈ c.featureIds) :
    representativeOf clustering.clusters (clusterIdOf clustering.clusters fid) fid =
      c.representative := by
  unfold representativeOf
  rw [clustering.clusterIdOf_eq hnodup hc hfid, clustering.find_cluster hc]
  rfl

theorem decideAdmission_of_enough {m : EvidenceMetrics} {leakageStatus : LeakageStatus}
    (h : Enough thresholds m leakageStatus) (isRepresentative : Bool) :
    decideAdmission thresholds m leakageStatus isRepresentative =
      if !isRepresentative then (.rejected, [.redundantNonRepresentative])
      else if thresholdReasons thresholds m = [] then (.admitted, [])
      else (.rejected, thresholdReasons thresholds m) := by
  obtain ⟨hobs, hfolds, hvalid, hleakage⟩ := h
  unfold decideAdmission
  rw [if_neg (not_lt.mpr hobs), if_neg (not_lt.mpr hfolds), if_neg (not_lt.mpr hvalid),
    if_neg hleakage]

theorem decideAdmission_of_not_enough {m : EvidenceMetrics} {leakageStatus : LeakageStatus}
    (h : ¬ Enough thresholds m leakageStatus) (isRepresentative : Bool) :
    (decideAdmission thresholds m leakageStatus isRepresentative).1 ≠ .admitted ∧
      .redundantNonRepresentative ∉
        (decideAdmission thresholds m leakageStatus isRepresentative).2 := by
  unfold decideAdmission
  split
  · simp
  split
  · simp
  split
  · simp
  split
  · simp
  next hobs hfolds hvalid hleakage =>
    exact absurd ⟨not_lt.mp hobs, not_lt.mp hfolds, not_lt.mp hvalid, hleakage⟩ h

theorem redundant_not_mem_thresholdReasons (thresholds : EvidenceThresholds) (m : EvidenceMetrics) :
    .redundantNonRepresentative ∉ thresholdReasons thresholds m := by
  unfold thresholdReasons
  simp only [List.mem_append, not_or]
  refine ⟨⟨⟨?_, ?_⟩, ?_⟩, ?_⟩
  · split <;> simp
  · split <;> simp
  · split
    · split <;> simp
    · simp
  · split <;> simp

/-- The evidence of one feature. -/
def evidenceOf (thresholds : EvidenceThresholds) (metrics : Id → Option EvidenceMetrics)
    (clusters : List (RedundancyCluster Id)) (scores : List (FeatureScore Id))
    (evaluation : FeatureEvaluation Id) : FeatureEvidence Id :=
  applyRedundancy clusters scores
    (evaluateFeatureEvidence thresholds evaluation.featureId (metrics evaluation.featureId)
      evaluation.leakageStatus
      (evaluation.featureId = representativeOf clusters (clusterIdOf clusters evaluation.featureId)
        evaluation.featureId) (clusterIdOf clusters evaluation.featureId))

theorem targetEvidence_eq_map (evaluations : List (FeatureEvaluation Id))
    (clusters : List (RedundancyCluster Id)) (scores : List (FeatureScore Id)) :
    targetEvidence thresholds metrics evaluations clusters scores =
      evaluations.map (evidenceOf thresholds metrics clusters scores) :=
  List.map_map

@[simp] theorem evidenceOf_featureId (clusters : List (RedundancyCluster Id))
    (scores : List (FeatureScore Id)) (evaluation : FeatureEvaluation Id) :
    (evidenceOf thresholds metrics clusters scores evaluation).featureId =
      evaluation.featureId := by
  simp only [evidenceOf, applyRedundancy]
  split
  · rfl
  · split <;> rfl

/-- Evidence that is admitted for a representative only stays as it is. -/
theorem applyRedundancy_eq {clusters : List (RedundancyCluster Id)}
    (scores : List (FeatureScore Id)) {base : FeatureEvidence Id}
    (hflag : base.isRepresentative = decide (base.featureId =
      representativeOf clusters base.clusterId base.featureId))
    (hadmitted : base.decision = .admitted → base.isRepresentative = true) :
    applyRedundancy clusters scores base = base := by
  simp only [applyRedundancy]
  rw [← hflag]
  split
  · rfl
  next hdecision =>
    rw [if_neg (by simp [hadmitted (not_not.mp hdecision)])]

section Decisions

variable {metrics : Option EvidenceMetrics} {leakageStatus : LeakageStatus} {isRepresentative : Bool}
  {clusterId : ℕ}

omit [LinearOrder Id] in
theorem evaluateFeatureEvidence_of_not_enough
    (h : ¬ ∃ m, metrics = some m ∧ Enough thresholds m leakageStatus) :
    let evidence := evaluateFeatureEvidence thresholds fid metrics leakageStatus isRepresentative
      clusterId
    evidence.decision ≠ .admitted ∧ .redundantNonRepresentative ∉ evidence.rejectionReasons := by
  cases metrics with
  | none => simp [evaluateFeatureEvidence]
  | some m => exact decideAdmission_of_not_enough (fun henough => h ⟨m, rfl, henough⟩) _

omit [LinearOrder Id] in
theorem evaluateFeatureEvidence_admitted :
    (evaluateFeatureEvidence thresholds fid metrics leakageStatus isRepresentative
        clusterId).decision = .admitted ↔
      isRepresentative = true ∧ ∃ m, metrics = some m ∧ Enough thresholds m leakageStatus ∧
        thresholdReasons thresholds m = [] := by
  by_cases h : ∃ m, metrics = some m ∧ Enough thresholds m leakageStatus
  · obtain ⟨m, rfl, henough⟩ := h
    show (decideAdmission thresholds m leakageStatus isRepresentative).1 = .admitted ↔ _
    rw [decideAdmission_of_enough henough]
    cases isRepresentative with
    | false => simp
    | true =>
      by_cases hreasons : thresholdReasons thresholds m = []
      · simp [hreasons, henough]
      · simp [hreasons]
  · exact iff_of_false (evaluateFeatureEvidence_of_not_enough h).1
      fun ⟨_, m, hm, henough, _⟩ => h ⟨m, hm, henough⟩

omit [LinearOrder Id] in
theorem evaluateFeatureEvidence_redundant :
    .redundantNonRepresentative ∈ (evaluateFeatureEvidence thresholds fid metrics leakageStatus
        isRepresentative clusterId).rejectionReasons ↔
      isRepresentative = false ∧ ∃ m, metrics = some m ∧ Enough thresholds m leakageStatus := by
  by_cases h : ∃ m, metrics = some m ∧ Enough thresholds m leakageStatus
  · obtain ⟨m, rfl, henough⟩ := h
    show .redundantNonRepresentative ∈
      (decideAdmission thresholds m leakageStatus isRepresentative).2 ↔ _
    rw [decideAdmission_of_enough henough]
    cases isRepresentative with
    | false => simp [henough]
    | true =>
      by_cases hreasons : thresholdReasons thresholds m = []
      · simp [hreasons]
      · simp [hreasons, redundant_not_mem_thresholdReasons]
  · exact iff_of_false (evaluateFeatureEvidence_of_not_enough h).2 fun hredundant => h hredundant.2

end Decisions

variable {evaluations : List (FeatureEvaluation Id)} {evaluation : FeatureEvaluation Id}
  (clustering : Clustering (evaluations.map FeatureEvaluation.featureId))
  (hids : (evaluations.map FeatureEvaluation.featureId).Nodup)
  (scores : List (FeatureScore Id)) {c : RedundancyCluster Id}

include hids

theorem evidenceOf_eq (hc : c ∈ clustering.clusters) (hfid : evaluation.featureId ∈ c.featureIds) :
    evidenceOf thresholds metrics clustering.clusters scores evaluation =
      evaluateFeatureEvidence thresholds evaluation.featureId (metrics evaluation.featureId)
        evaluation.leakageStatus (evaluation.featureId = c.representative) c.clusterId := by
  have hrepresentative := clustering.representativeOf_eq hids hc hfid
  have hcluster := clustering.clusterIdOf_eq hids hc hfid
  unfold evidenceOf
  rw [hrepresentative, hcluster]
  rw [hcluster] at hrepresentative
  refine applyRedundancy_eq scores ?_ fun hadmitted =>
    (evaluateFeatureEvidence_admitted.mp hadmitted).1
  show decide (evaluation.featureId = c.representative) = decide (evaluation.featureId =
    representativeOf clustering.clusters c.clusterId evaluation.featureId)
  rw [hrepresentative]

theorem evidenceOf_admitted_iff (hc : c ∈ clustering.clusters)
    (hfid : evaluation.featureId ∈ c.featureIds) :
    (evidenceOf thresholds metrics clustering.clusters scores evaluation).decision = .admitted ↔
      evaluation.featureId = c.representative ∧ Passes thresholds metrics evaluation := by
  rw [evidenceOf_eq clustering hids scores hc hfid, evaluateFeatureEvidence_admitted,
    decide_eq_true_eq]
  rfl

theorem evidenceOf_redundant_iff (hc : c ∈ clustering.clusters)
    (hfid : evaluation.featureId ∈ c.featureIds) :
    .redundantNonRepresentative ∈
        (evidenceOf thresholds metrics clustering.clusters scores evaluation).rejectionReasons ↔
      evaluation.featureId ≠ c.representative ∧ Conclusive thresholds metrics evaluation := by
  rw [evidenceOf_eq clustering hids scores hc hfid, evaluateFeatureEvidence_redundant,
    decide_eq_false_iff_not]
  rfl

/-- Rejections for redundancy are justified exactly where the representatives pass. -/
theorem redundancy_justified_iff :
    Justified thresholds metrics evaluations clustering.clusters scores
        (targetEvidence thresholds metrics evaluations clustering.clusters scores) ↔
      RepresentativesPass thresholds metrics evaluations clustering.clusters scores := by
  rw [targetEvidence_eq_map]
  constructor
  · intro h c hc evaluation hevaluation hfid hne hconclusive
    obtain ⟨f, hf, -, hmem, hadmitted, hscore⟩ := h.rejected _ (List.mem_map_of_mem hevaluation)
      ((evidenceOf_redundant_iff clustering hids scores hc hfid).mpr ⟨hne, hconclusive⟩) c hc
      (by rwa [evidenceOf_featureId])
    obtain ⟨peer, hpeer, rfl⟩ := List.mem_map.mp hf
    rw [evidenceOf_featureId] at hmem hscore
    obtain ⟨heq, hpasses⟩ := (evidenceOf_admitted_iff clustering hids scores hc hmem).mp hadmitted
    rw [evidenceOf_featureId, heq] at hscore
    exact ⟨peer, hpeer, heq, hpasses, hscore⟩
  · intro h
    refine ⟨?_, ?_, ?_⟩
    · rintro e he hredundant c hc hmem
      obtain ⟨evaluation, hevaluation, rfl⟩ := List.mem_map.mp he
      rw [evidenceOf_featureId] at hmem
      obtain ⟨hne, hconclusive⟩ :=
        (evidenceOf_redundant_iff clustering hids scores hc hmem).mp hredundant
      obtain ⟨peer, hpeer, heq, hpasses, hscore⟩ :=
        h c hc evaluation hevaluation hmem hne hconclusive
      have hpeermem : peer.featureId ∈ c.featureIds := heq ▸ clustering.representative_mem c hc
      refine ⟨_, List.mem_map_of_mem hpeer, ?_, ?_, ?_, ?_⟩
      · rw [evidenceOf_featureId, evidenceOf_featureId, heq]
        exact fun h => hne h.symm
      · rwa [evidenceOf_featureId]
      · exact (evidenceOf_admitted_iff clustering hids scores hc hpeermem).mpr ⟨heq, hpasses⟩
      · rwa [evidenceOf_featureId, evidenceOf_featureId, heq]
    · rintro c hc e he f hf hemem hfmem headmitted hfadmitted
      obtain ⟨evaluation, -, rfl⟩ := List.mem_map.mp he
      obtain ⟨other, -, rfl⟩ := List.mem_map.mp hf
      rw [evidenceOf_featureId] at hemem hfmem
      rw [evidenceOf_featureId, evidenceOf_featureId,
        ((evidenceOf_admitted_iff clustering hids scores hc hemem).mp headmitted).1,
        ((evidenceOf_admitted_iff clustering hids scores hc hfmem).mp hfadmitted).1]
    · rintro c hc evaluation hevaluation hmem hpasses
      have hwinner : ∃ peer ∈ evaluations, peer.featureId = c.representative ∧
          Passes thresholds metrics peer := by
        by_cases heq : evaluation.featureId = c.representative
        · exact ⟨evaluation, hevaluation, heq, hpasses⟩
        · obtain ⟨m, hm, henough, -⟩ := hpasses
          obtain ⟨peer, hpeer, hpeereq, hpeerpasses, -⟩ :=
            h c hc evaluation hevaluation hmem heq ⟨m, hm, henough⟩
          exact ⟨peer, hpeer, hpeereq, hpeerpasses⟩
      obtain ⟨peer, hpeer, heq, hpeerpasses⟩ := hwinner
      have hpeermem : peer.featureId ∈ c.featureIds := heq ▸ clustering.representative_mem c hc
      refine ⟨_, List.mem_map_of_mem hpeer, by rwa [evidenceOf_featureId], ?_⟩
      exact (evidenceOf_admitted_iff clustering hids scores hc hpeermem).mpr ⟨heq, hpeerpasses⟩

end OneFeature

/-! ## Two features that say the same -/

/-- The thresholds of `DEFAULT_EVIDENCE_THRESHOLDS`. -/
def defaultThresholds : EvidenceThresholds where
  minObs := 100
  minFolds := 3
  minValidFolds := 2
  minAbsRankIc := 2 / 100
  minSignConsistency := 67 / 100
  maxRankIcDispersion := 20 / 100
  minDeflatedScore := 50 / 100

/-- A feature with this rank correlation on all of its folds. -/
def steadyMetrics (rankIc : ℚ) : EvidenceMetrics where
  nObs := 200
  foldDiagnostics := (List.range 3).map fun foldIndex => ⟨foldIndex, some rankIc, some rankIc, 60⟩
  rankIc := some rankIc
  signConsistency := 1
  effectDispersion := some 0
  deflatedScore := 90 / 100

def steadyEvaluation (featureId : ℕ) (rankIc : ℚ) : FeatureEvaluation ℕ where
  featureId
  rankIc := some rankIc
  stability := some 1
  regimeIcs := []
  leakageStatus := .clean

/-- The first column with this correlation, and the second with 0.1. -/
def twinMetrics (first : ℚ) : ℕ → Option EvidenceMetrics
  | 0 => some (steadyMetrics first)
  | _ => some (steadyMetrics (1 / 10))

def twinEvaluations (first : ℚ) : List (FeatureEvaluation ℕ) :=
  [steadyEvaluation 0 first, steadyEvaluation 1 (1 / 10)]

/-- Both columns in one cluster. -/
def twinClustering (first : ℚ) :
    Clustering ((twinEvaluations first).map FeatureEvaluation.featureId) :=
  Clustering.ofGroups [[0, 1]] (List.Perm.refl _) (by simp)

theorem redundancy_justified_iff_twins :
    ((twinEvaluations (1 / 5)).map FeatureEvaluation.featureId).Nodup ∧
      (Justified defaultThresholds (twinMetrics (1 / 5)) (twinEvaluations (1 / 5))
          (twinClustering (1 / 5)).clusters []
          (targetEvidence defaultThresholds (twinMetrics (1 / 5)) (twinEvaluations (1 / 5))
            (twinClustering (1 / 5)).clusters []) ↔
        RepresentativesPass defaultThresholds (twinMetrics (1 / 5)) (twinEvaluations (1 / 5))
          (twinClustering (1 / 5)).clusters []) :=
  ⟨by decide, redundancy_justified_iff (twinClustering (1 / 5)) (by decide) []⟩

/-- The first column is too weak, the second one is rejected as redundant, and none is admitted. -/
theorem twins_vanish :
    (profileEvidence defaultThresholds (twinMetrics (1 / 100)) (twinEvaluations (1 / 100)) [0, 1]
        200 (fun _ _ => some (95 / 100)) (90 / 100)).map
          (fun e => (e.decision, e.rejectionReasons)) =
      [(.rejected, [.weakRankIc (some (1 / 100))]), (.rejected, [.redundantNonRepresentative])] ∧
    ¬ Justified defaultThresholds (twinMetrics (1 / 100)) (twinEvaluations (1 / 100))
      (twinClustering (1 / 100)).clusters
      (scoreFeatures (twinEvaluations (1 / 100)) (twinClustering (1 / 100)).clusters)
      (profileEvidence defaultThresholds (twinMetrics (1 / 100)) (twinEvaluations (1 / 100)) [0, 1]
        200 (fun _ _ => some (95 / 100)) (90 / 100)) := by
  have hdecisions : (profileEvidence defaultThresholds (twinMetrics (1 / 100))
      (twinEvaluations (1 / 100)) [0, 1] 200 (fun _ _ => some (95 / 100)) (90 / 100)).map
        (fun e => (e.decision, e.rejectionReasons)) =
      [(.rejected, [.weakRankIc (some (1 / 100))]),
        (.rejected, [.redundantNonRepresentative])] := by
    decide +kernel
  refine ⟨hdecisions, fun h => ?_⟩
  obtain ⟨e, he, -, hadmitted⟩ := h.survives ⟨0, [0, 1], 0⟩ List.mem_cons_self
    (steadyEvaluation 1 (1 / 10)) (by simp [twinEvaluations]) (by simp [steadyEvaluation])
    ⟨_, rfl, by decide +kernel, by decide +kernel⟩
  have hmem := List.mem_map_of_mem (f := fun e : FeatureEvidence ℕ =>
    (e.decision, e.rejectionReasons)) he
  rw [hdecisions, hadmitted] at hmem
  simp at hmem

end QBackend.Evidence
