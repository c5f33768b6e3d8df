import QBackend.RepairedGenomes

/-!
# Repairs that raise nothing

A repaired genome is evaluated where the genome before was, so that an attempt ends with a genome or
with a validation error, which is caught, and the genome that a repair returns is valid and has the
graph of the one it was given. What can go wrong is the threshold of a node that reads a kind without
a port `out`, and a period that is too large for a float.
-/

namespace QBackend.GenomeDsl

open FallibleSteps TopologicalOrder DistinctKeys
open GeneticSearch (collectGenomeParamKeys)

/-! ## Parameters -/

/-- The parameters that are set have their defaults. -/
def Defaults (trial : TrialParams) : Prop :=
  ∀ key value, trial key = some value →
    (genomeParamBounds.lookup key).map ParamSpec.default = some value

theorem resolveParam_defaults {trial : TrialParams} (h : Defaults trial) (value : ParamValue) :
    resolveParam trial value = resolveParam (fun _ => none) value := by
  cases value with
  | lit value => rfl
  | ref param negate =>
    unfold resolveParam
    simp only
    cases htrial : trial param with
    | none => rfl
    | some value =>
      have hdefault := h param value htrial
      rw [hdefault]
      rfl

theorem resolveNodeParams_defaults {trial : TrialParams} (h : Defaults trial) (node : GenomeNode) :
    resolveNodeParams trial node = resolveNodeParams (fun _ => none) node := by
  unfold resolveNodeParams
  simp only [resolveParam_defaults h]

theorem lookup_resolveNodeParams {trial : TrialParams} {node : GenomeNode}
    (hkind : node.kind ≠ .transformShift) (key : String) :
    (resolveNodeParams trial node).lookup key =
      (node.params.lookup key).map (resolveParam trial) := by
  have hnd : ((node.params.map fun param => (param.1, resolveParam trial param.2)).map
      Prod.fst).Nodup := by
    rw [List.map_map]
    exact node.keysNodup
  unfold resolveNodeParams
  simp only [hkind, false_and, if_false]
  rw [← lookup_perm hnd (List.perm_insertionSort _ _).symm, lookup_map_value]

section Requirements

variable {F : Type} [ProbeFloat F]

/-- The values of parameters of which some were replaced. -/
def ReplacedParams (F : Type) [ProbeFloat F] (kind : NodeKind) (params params' : Params) : Prop :=
  ∀ key, params'.lookup key = params.lookup key ∨
    ∃ value, params'.lookup key = some value ∧ Replaces F kind key value

variable {kind : NodeKind} {params params' : Params} {frame : Frame F} {count : ℕ} {key : String}

theorem getKey_congr (h : params'.lookup key = params.lookup key) :
    getKey params' key = getKey params key := by
  unfold getKey
  rw [h]

theorem replaced_int (hfamily : kind.family = .ind) {value : Value}
    (h : Replaces F kind key value) : key ∈ periodParamKeys ∧ ∃ n : ℤ, 2 ≤ n ∧ value = .int n := by
  cases h with
  | threshold x hkind hkey =>
    obtain rfl | rfl := hkind
    · cases hfamily
    · cases hfamily
  | period n hkind hkey hn => exact ⟨hkey, n, hn, rfl⟩

theorem hasInt_replaced (hfamily : kind.family = .ind) (h : ReplacedParams F kind params params')
    {P Q : ℤ → Prop} (hint : HasInt params key P) (hP : ∀ n, P n → Q n)
    (htwo : ∀ n, 2 ≤ n → Q n) : HasInt params' key Q := by
  obtain heq | ⟨value, hvalue, hreplaces⟩ := h key
  · obtain ⟨n, hn, hPn⟩ := hint
    refine ⟨n, ?_, hP n hPn⟩
    unfold intParam
    rw [getKey_congr heq]
    exact hn
  · obtain ⟨-, n, hn, rfl⟩ := replaced_int hfamily hreplaces
    exact ⟨n, bind_of_ok (getKey_eq_ok.mpr hvalue) rfl, htwo n hn⟩

theorem lookup_replaced (hfamily : kind.family = .ind) (h : ReplacedParams F kind params params')
    (hkey : key ∉ periodParamKeys) : params'.lookup key = params.lookup key :=
  (h key).resolve_right fun ⟨_, _, hreplaces⟩ => hkey (replaced_int hfamily hreplaces).1

theorem requirements_ind (hfamily : kind.family = .ind) (h : ReplacedParams F kind params params')
    (hrequired : Requirements frame none kind params count) :
    Requirements frame none kind params' count := by
  have hint : ∀ {key : String} {P : ℤ → Prop}, HasInt params key P → (∀ n, 2 ≤ n → P n) →
      HasInt params' key P := fun hP htwo => hasInt_replaced hfamily h hP (fun _ => id) htwo
  have hsame : ∀ {key : String}, key ∉ periodParamKeys →
      params'.lookup key = params.lookup key := fun hkey => lookup_replaced hfamily h hkey
  have hfloat : ∀ {key : String} {P : F → Prop}, key ∉ periodParamKeys → HasFloat F params key P →
      HasFloat F params' key P := by
    intro key P hkey hP
    unfold HasFloat floatParam at hP ⊢
    rw [getKey_congr (hsame hkey)]
    exact hP
  have hstr : ∀ {key : String} {P : String → Prop}, key ∉ periodParamKeys → HasStr F params key P →
      HasStr F params' key P := by
    intro key P hkey hP
    unfold HasStr strParam at hP ⊢
    rw [getKey_congr (hsame hkey)]
    exact hP
  have hother : ∀ {key : String} {P : ℤ → Prop}, key ∉ periodParamKeys → HasInt params key P →
      HasInt params' key P := by
    intro key P hkey hP
    unfold HasInt intParam at hP ⊢
    rw [getKey_congr (hsame hkey)]
    exact hP
  cases kind <;> cases hfamily
  case indMa.refl => exact ⟨hint hrequired.1 (by omega), hstr (by decide) hrequired.2⟩
  case indEma.refl => exact hint hrequired (by omega)
  case indRsi.refl => exact hint hrequired (by omega)
  case indAtr.refl => exact hint hrequired (by omega)
  case indMacd.refl =>
    exact ⟨hint hrequired.1 (by omega), hint hrequired.2.1 (by omega),
      hother (by decide) hrequired.2.2⟩
  case indBollinger.refl => exact ⟨hint hrequired.1 (by omega), hfloat (by decide) hrequired.2⟩
  case indDonchian.refl => exact hint hrequired (by omega)
  case indMomentum.refl => exact hint hrequired fun _ _ => trivial
  case indRealizedVol.refl =>
    show HasInt params' "window" _
    rw [hsame (show "estimator" ∉ periodParamKeys by decide)]
    exact hother (by decide) hrequired
  case indDiff.refl => exact trivial
  case indRatio.refl => exact trivial
  case indTrbChannel.refl => exact ⟨hint hrequired.1 (by omega), hfloat (by decide) hrequired.2⟩
  case indMaBand.refl => exact hfloat (by decide) hrequired
  case indTsmom.refl =>
    obtain ⟨hlookback, hrebalance, hwindow⟩ := hrequired
    refine ⟨hint hlookback fun _ _ => trivial, hother (by decide) hrebalance, ?_⟩
    have hkept := hwindow
    obtain ⟨-, -, estimator, hestimator, -⟩ := hkept
    refine hasInt_replaced rfl h hwindow (fun n hn => hstr (by decide) hn) fun n hn => ?_
    exact hstr (by decide) ⟨estimator, hestimator, by omega, fun _ => by omega⟩
  case indTrendBlend.refl =>
    obtain ⟨h1, h2, h3, hwindow⟩ := hrequired
    exact ⟨hint h1 fun _ _ => trivial, hint h2 fun _ _ => trivial, hint h3 fun _ _ => trivial,
      hint hwindow (by omega)⟩
  case indLatent.refl => exact ⟨rfl, fun hsome => (by cases hsome)⟩

theorem requirements_cross (hkind : kind = .cmpCrossAbove ∨ kind = .cmpCrossBelow)
    (h : ReplacedParams F kind params params')
    (hrequired : Requirements frame none kind params count) :
    Requirements frame none kind params' count := by
  have hcross : ∀ ps : Params, Requirements frame none kind ps count ↔
      (count = 1 →
        Succeeds (((ps.lookup "threshold").getD (.float 0)).toFloat : Except Failure F)) := by
    intro ps
    obtain rfl | rfl := hkind
    · rfl
    · rfl
  rw [hcross] at hrequired ⊢
  intro hone
  obtain heq | ⟨value, hvalue, hreplaces⟩ := h "threshold"
  · rw [heq]
    exact hrequired hone
  · rw [hvalue]
    cases hreplaces with
    | threshold x _ _ => exact ⟨x, ProbeFloat.toFloat_literal x⟩
    | period n hfamily _ _ =>
      obtain rfl | rfl := hkind
      · cases hfamily
      · cases hfamily

end Requirements

/-! ## Evaluations -/

section Evaluations

variable {F : Type} [ProbeFloat F] {genome genome' : Genome} {node node' : GenomeNode}
  {trial trial' : TrialParams} {frame : Frame F}

theorem Repaired.replacedParams (h : Repaired F node node')
    (hreplaced : node.kind.Replaced = true) (htrial : Defaults trial) (htrial' : Defaults trial') :
    ReplacedParams F node.kind (resolveNodeParams trial node) (resolveNodeParams trial' node') := by
  have hshift : node.kind ≠ .transformShift := by
    intro heq
    rw [heq] at hreplaced
    cases hreplaced
  intro key
  rw [resolveNodeParams_defaults htrial, resolveNodeParams_defaults htrial',
    lookup_resolveNodeParams hshift, lookup_resolveNodeParams (h.kind ▸ hshift)]
  obtain heq | ⟨value, hvalue, hreplaces⟩ := h.params key
  · exact .inl (by rw [heq])
  · exact .inr ⟨value, by rw [hvalue]; rfl, hreplaces⟩

theorem Repaired.resolved_eq (h : Repaired F node node') (hreplaced : node.kind.Replaced = false)
    (htrial : Defaults trial) (htrial' : Defaults trial') :
    resolveNodeParams trial' node' = resolveNodeParams trial node := by
  rw [resolveNodeParams_defaults htrial, resolveNodeParams_defaults htrial']
  unfold resolveNodeParams
  rw [h.params_eq hreplaced, h.kind]

theorem Repaired.computes (h : Repaired F node node') (htrial : Defaults trial)
    (htrial' : Defaults trial') {count : ℕ} (hcount : (nodeSpec node.kind).minInputs ≤ count)
    (hcomputes : Computes frame none node.kind (resolveNodeParams trial node) count) :
    Computes frame none node'.kind (resolveNodeParams trial' node') count := by
  rw [h.kind]
  cases hreplaced : node.kind.Replaced with
  | false =>
    rw [h.resolved_eq hreplaced htrial htrial']
    exact hcomputes
  | true =>
    have hrows : node.kind.Ranks = true → 0 < frame.rows.length := by
      intro hranks
      revert hreplaced hranks
      cases node.kind <;> first
        | exact fun h _ => absurd h (by decide)
        | exact fun _ h => absurd h (by decide)
    have hparams := h.replacedParams hreplaced htrial htrial'
    rw [computes_iff frame hrows hcount] at hcomputes ⊢
    unfold NodeKind.Replaced at hreplaced
    rw [Bool.or_eq_true, Bool.or_eq_true] at hreplaced
    obtain (habove | hbelow) | hind := hreplaced
    · exact requirements_cross (.inl (of_decide_eq_true habove)) hparams hcomputes
    · exact requirements_cross (.inr (of_decide_eq_true hbelow)) hparams hcomputes
    · exact requirements_ind (of_decide_eq_true hind) hparams hcomputes

theorem RepairOf.holdingKnown (h : RepairOf F genome genome') (hnd : genome.ids.Nodup)
    (htrial : Defaults trial) (htrial' : Defaults trial') (hholding : HoldingKnown genome trial) :
    HoldingKnown genome' trial' := by
  intro node' hnode'
  have hshape := h.graph.holdingNode
  rw [hnode'] at hshape
  obtain ⟨node, hnode, heq⟩ := Option.map_eq_some_iff.mp hshape.symm
  have hmem : ∀ (g : Genome) (n : GenomeNode), g.holdingNode = some n →
      n ∈ g.nodes ∧ n.kind = .exitFixedHolding := by
    intro g n hn
    obtain ⟨ref, -, href⟩ := List.mem_filterMap.mp (List.mem_of_find?_eq_some hn)
    exact ⟨KeyedTables.mem_of_lookup href, by simpa using List.find?_some hn⟩
  obtain ⟨hn, hkind⟩ := hmem genome node hnode
  have hrepaired := h.repaired hnd hn (hmem genome' node' hnode').1
    (shape_eq_iff.mp heq.symm).1
  have hreplaced : node.kind.Replaced = false := by rw [hkind]; rfl
  rw [hrepaired.resolved_eq hreplaced htrial htrial']
  exact hholding node hnode

theorem RepairOf.runs (h : RepairOf F genome genome') (haccepted : Accepted F genome)
    (hruns : Runs { genome := genome, trial := trial } frame) (hreads : ReadsColumns genome)
    (htrial : Defaults trial) (htrial' : Defaults trial') :
    Runs { genome := genome', trial := trial' } frame where
  holding := h.holdingKnown haccepted.nodup htrial htrial' hruns.holding
  computes := by
    intro node' hn'
    obtain ⟨node, hn, hrepaired⟩ := h.exists_node hn'
    rw [show node'.inputs = node.inputs from (shape_eq_iff.mp hrepaired.shape).2.2]
    exact hrepaired.computes htrial htrial' (haccepted.minInputs_le hn) (hruns.computes node hn)
  reads before node after hsplit :=
    .inl (h.graph.readsColumns hreads before node after hsplit)

end Evaluations

/-! ## Probes -/

/-- What the search catches. -/
def Caught (e : SearchError) : Prop := e.caught = true

section Probes

variable {F : Type} [ProbeFloat F] {genome genome' : Genome} {frame : Frame F} {limits : Limits}

/-- A genome that is valid within the limits and evaluated on the frame, in which every column that
is read is written. -/
structure Probeable (genome : Genome) (frame : Frame F) (limits : Limits) : Prop where
  valid : validateGenome F genome limits.maxDepth limits.maxNodes = .ok ()
  accepted : Accepted F genome
  runs : Runs { genome := genome, trial := fun _ => none } frame
  reads : ReadsColumns genome

theorem requireBoolRef_error {label ref : String} {e : ValidationError}
    (h : requireBoolRef genome label ref = .error e) : e ≠ .typeError := by
  unfold requireBoolRef at h
  split at h
  · rw [← Except.error.inj h]
    exact ValidationError.noConfusion
  · split at h
    · rw [← Except.error.inj h]
      exact ValidationError.noConfusion
    · unfold ensure at h
      split at h
      · cases h
      · rw [← Except.error.inj h]
        exact ValidationError.noConfusion

theorem requireExitRef_error {label ref : String} {e : ValidationError}
    (h : requireExitRef genome label ref = .error e) : e ≠ .typeError := by
  unfold requireExitRef at h
  split at h
  · rw [← Except.error.inj h]
    exact ValidationError.noConfusion
  · split at h
    · cases h
    · exact requireBoolRef_error h

theorem validateSignalRefs_error {e : ValidationError} (h : validateSignalRefs genome = .error e) :
    e ≠ .typeError := by
  simp only [validateSignalRefs, bind_eq_error] at h
  obtain h | ⟨_, -, h | ⟨_, -, h | ⟨_, -, h⟩⟩⟩ := h
  · exact requireBoolRef_error h
  · exact requireBoolRef_error h
  · exact requireExitRef_error h
  · exact requireExitRef_error h

theorem RepairOf.validate_guarded (h : RepairOf F genome genome') {maxDepth maxNodeCount : ℕ}
    (hvalid : validateGenome F genome maxDepth maxNodeCount = .ok ()) :
    Guarded Caught
      ((validateGenome F genome' maxDepth maxNodeCount).mapError SearchError.invalid)
      fun _ => validateGenome F genome' maxDepth maxNodeCount = .ok () := by
  refine guarded_of_mapError (fun _ hok => hok) fun e he => ?_
  rw [h.validateGenome_eq hvalid] at he
  exact decide_eq_true (validateSignalRefs_error he)

theorem RepairOf.validateOrRaise_guarded (h : RepairOf F genome genome')
    (hvalid : validateGenome F genome limits.maxDepth limits.maxNodes = .ok ()) :
    Guarded Caught (validateOrRaise F genome' limits) fun child =>
      child = genome' ∧ validateGenome F child limits.maxDepth limits.maxNodes = .ok () :=
  (h.validate_guarded hvalid).bind fun _ _ hok => guarded_pure ⟨rfl, hok⟩

theorem keys_bounded (hnodes : ∀ node ∈ genome.nodes, validateNode F genome node = .ok ())
    (hpolicy : validateExitRulePolicy genome = .ok ()) {key : String}
    (hkey : key ∈ collectGenomeParamKeys genome) : (genomeParamBounds.lookup key).isSome = true := by
  have hrefs : ∀ (params : List (String × ParamValue)) {param : String},
      param ∈ params.filterMap (fun p => GeneticSearch.ParamValue.refKey p.2) →
      ∃ name negate, (name, ParamValue.ref param negate) ∈ params := by
    intro params param hparam
    obtain ⟨⟨name, value⟩, hmem, hrefKey⟩ := List.mem_filterMap.mp hparam
    cases value with
    | lit value => cases hrefKey
    | ref other negate =>
      obtain rfl := Option.some.inj hrefKey
      exact ⟨name, negate, hmem⟩
  unfold collectGenomeParamKeys at hkey
  rw [List.mem_dedup, List.mem_append] at hkey
  obtain hkey | hkey := hkey
  · obtain ⟨node, hn, hparam⟩ := List.mem_flatMap.mp hkey
    obtain ⟨name, negate, hmem⟩ := hrefs node.params hparam
    exact ensure_eq_ok.mp ((validateNode_ok (hnodes node hn)).2.1 _ hmem)
  · unfold validateExitRulePolicy at hpolicy
    cases hp : genome.exitRulePolicy with
    | none =>
      rw [hp] at hkey
      cases hkey
    | some policy =>
      rw [hp] at hkey hpolicy
      simp only [Option.bind_some] at hkey hpolicy
      cases hps : policy.params with
      | none =>
        rw [hps] at hkey
        cases hkey
      | some params =>
        rw [hps] at hkey hpolicy
        obtain ⟨name, negate, hmem⟩ := hrefs params hkey
        split at hpolicy
        · cases hpolicy
        · simp only [seq_eq_ok, forM_eq_ok] at hpolicy
          have hbinding := hpolicy.2.2.2 _ hmem
          simp only [validateExitBinding, seq_eq_ok, ensure_eq_ok] at hbinding
          exact hbinding.1

theorem defaults_of_ok {params : List (String × Value)}
    (h : defaultTrialParams genome = .ok params) : Defaults fun key => params.lookup key := by
  intro key value hlookup
  obtain ⟨other, -, hentry⟩ := (mem_of_mapM h).mp (mem_of_lookup hlookup)
  split at hentry
  next bounds hbounds =>
    obtain ⟨rfl, rfl⟩ := Prod.mk.inj (Except.ok.inj hentry)
    rw [hbounds]
    rfl
  · cases hentry

theorem RepairOf.defaultTrialParams_ok (h : RepairOf F genome genome')
    (hvalid : validateGenome F genome limits.maxDepth limits.maxNodes = .ok ()) :
    ∃ params, defaultTrialParams genome' = .ok params := by
  obtain ⟨-, -, hnodes, -, -, -, hpolicy⟩ := validateGenome_eq_ok.mp hvalid
  refine exists_mapM_ok fun key hkey => ?_
  have hpolicy' : validateExitRulePolicy genome' = .ok () := by
    unfold validateExitRulePolicy at hpolicy ⊢
    rw [h.graph.exitRulePolicy]
    exact hpolicy
  have hbound := keys_bounded (h.validateNode_ok hnodes) hpolicy'
    ((List.mem_insertionSort _).mp hkey)
  obtain ⟨bounds, hbounds⟩ := Option.isSome_iff_exists.mp hbound
  rw [hbounds]
  exact ⟨_, rfl⟩

theorem RepairOf.probe_guarded (h : RepairOf F genome genome')
    (hprobeable : Probeable genome frame limits) {params : List (String × Value)}
    (hparams : Defaults fun key => params.lookup key) :
    Guarded Caught (probeIndicators genome' params frame) fun _ =>
      Succeeds (compilePlan genome' fun key => params.lookup key) := by
  refine (h.validate_guarded hprobeable.accepted).bind fun _ _ hok => ?_
  have haccepted : Accepted F genome' := hok
  have hruns := h.runs hprobeable.accepted hprobeable.runs hprobeable.reads
    (fun _ _ hnone => by cases hnone) hparams
  obtain ⟨hplan, indicators, hindicators⟩ :=
    (haccepted.runs_iff (fun l hl => by cases hl)).mpr hruns
  rw [hindicators]
  rw [haccepted.plan_eq] at hplan
  exact guarded_ok hplan

theorem RepairOf.activity_guarded (h : RepairOf F genome genome')
    (hprobeable : Probeable genome frame limits) (minSignals : ℤ) :
    Guarded Caught (genomeSignalActivity genome' frame minSignals []) fun _ => True := by
  unfold genomeSignalActivity
  by_cases hrows : frame.rows = []
  · rw [if_pos hrows]
    exact guarded_ok trivial
  · rw [if_neg hrows]
    obtain ⟨params, hparams⟩ := h.defaultTrialParams_ok hprobeable.valid
    refine Guarded.bind (P := fun ps => ps = params) ?_ ?_
    · rw [hparams]
      exact guarded_ok rfl
    · rintro _ - rfl
      refine (h.probe_guarded hprobeable (defaults_of_ok hparams)).bind ?_
      rintro indicators - ⟨plan, hplan⟩
      rw [hplan]
      exact guarded_ok trivial

end Probes

/-! ## Operations -/

section Operations

variable {F : Type} [ProbeFloat F] {genome current : Genome} {frame : Frame F} {limits : Limits}

/-- A pass that moves the threshold of a node reads numbers from a kind with a port `out`. -/
def PassSafe (frame : Frame F) (trialParams : List (String × Value)) (s : Recentering)
    (node : GenomeNode) : Prop :=
  ∀ series, node.Crosses = true →
    parentSeries s.child frame node trialParams = .ok (some series) →
    (∃ xs, series = .numbers xs) ∧
      ∀ source ∈ s.child.node? (parseInputRef (node.inputs.headD "")).1,
        (portOutputType source.kind "out").isSome = true

/-- Every pass that the loop over the thresholds comes to is safe. -/
def RecenterSafe (random : String → F) (frame : Frame F) (current : Genome) : Prop :=
  ∀ params before node after s, defaultTrialParams current = .ok params →
    current.nodes = before ++ node :: after →
    before.foldlM (recenterNode random frame params) ⟨current, false⟩ = .ok s →
    PassSafe frame params s node

/-- Every period is small enough for a float. -/
def ShortenSafe (current : Genome) : Prop :=
  ∀ node ∈ current.nodes, node.kind.family = .ind → ∀ key ∈ periodParamKeys, ∀ n : ℤ,
    node.params.lookup key = some (.lit (.int n)) → |n| < floatLimit

theorem recenteredThreshold_numbers (kind : NodeKind) (type : OutputType) (random : F)
    (xs : List F) : ∃ target, recenteredThreshold kind type random (.numbers xs) = .ok target := by
  unfold recenteredThreshold
  by_cases htype : type = .oscillator
  · subst htype
    exact ⟨_, rfl⟩
  · simp only [if_neg htype]
    exact ⟨_, rfl⟩

theorem portType_ok {kind : NodeKind} (h : (portOutputType kind "out").isSome = true)
    (port : String) : ∃ type, portType kind port = .ok type := by
  obtain ⟨out, hout⟩ := Option.isSome_iff_exists.mp h
  refine ⟨(portOutputType kind port).getD out, ?_⟩
  have hkey : getKey (nodeSpec kind).ports "out" = .ok out := getKey_eq_ok.mpr hout
  unfold portType
  rw [hkey]
  rfl

theorem Probeable.nodup (h : Probeable genome frame limits) : genome.ids.Nodup :=
  h.accepted.nodup

theorem parentSeries_guarded (h : RepairOf F genome current)
    (hprobeable : Probeable genome frame limits) {params : List (String × Value)}
    (hparams : Defaults fun key => params.lookup key) (node : GenomeNode) :
    Guarded Caught (parentSeries current frame node params) fun _ => True := by
  unfold parentSeries
  split
  · exact guarded_ok trivial
  · refine (h.probe_guarded hprobeable hparams).bind fun indicators _ _ => ?_
    split
    · exact guarded_pure trivial
    · exact guarded_pure trivial

theorem crosses_replaces {node : GenomeNode} (h : node.Crosses = true) (x : F) :
    "threshold" ∈ node.params.map Prod.fst ∧
      Replaces F node.kind "threshold" (ProbeFloat.literal x) := by
  unfold GenomeNode.Crosses at h
  rw [Bool.and_eq_true, Bool.or_eq_true] at h
  obtain ⟨hkind, hkey⟩ := h
  exact ⟨of_decide_eq_true hkey, .threshold x (hkind.imp of_decide_eq_true of_decide_eq_true) rfl⟩

theorem recenterNode_guarded {random : String → F} {s : Recentering} {node : GenomeNode}
    (hprobeable : Probeable genome frame limits) (hcurrent : RepairOf F genome current)
    (hs : RepairOf F current s.child) (hsame : s.changed = false → s.child = current)
    (hn : node ∈ current.nodes) {params : List (String × Value)}
    (hparams : Defaults fun key => params.lookup key) (hsafe : PassSafe frame params s node) :
    Guarded Caught (recenterNode random frame params s node) fun s' =>
      RepairOf F current s'.child ∧ (s'.changed = false → s'.child = current) := by
  unfold recenterNode
  by_cases hcross : node.Crosses = true
  swap
  · rw [if_neg hcross]
    exact guarded_pure ⟨hs, hsame⟩
  rw [if_pos hcross]
  refine (parentSeries_guarded (hcurrent.trans hs) hprobeable hparams node).bind ?_
  intro found hfound _
  cases found with
  | none => exact guarded_pure ⟨hs, hsame⟩
  | some series =>
    obtain ⟨⟨xs, rfl⟩, hout⟩ := hsafe series hcross hfound
    -- the first input is there: without one there is no series
    obtain ⟨raw, rest, hinputs⟩ : ∃ raw rest, node.inputs = raw :: rest := by
      cases hinputs : node.inputs with
      | nil =>
        unfold parentSeries at hfound
        rw [hinputs] at hfound
        cases Except.ok.inj hfound
      | cons raw rest => exact ⟨raw, rest, rfl⟩
    have hnodup : current.ids.Nodup := hcurrent.graph.ids ▸ hprobeable.nodup
    have hvalid := hcurrent.validateNode_ok (validateGenome_eq_ok.mp hprobeable.valid).2.2.1 node hn
    obtain ⟨parent, type, hparent, -, -, -⟩ :=
      (validateNode_ok hvalid).2.2.inputs raw (by rw [hinputs]; exact List.mem_cons_self)
    have hsource : (parseInputRef (node.inputs.headD "")).1 = (parseInputRef raw).1 := by
      rw [hinputs]
      rfl
    obtain ⟨source, hsourceNode⟩ : ∃ source, s.child.node? (parseInputRef raw).1 = some source := by
      cases hc : s.child.node? (parseInputRef raw).1 with
      | none =>
        rw [hs.graph.node?_eq_none hc] at hparent
        cases hparent
      | some source => exact ⟨source, rfl⟩
    rw [hsource] at hout
    obtain ⟨portOut, hport⟩ := portType_ok (hout source hsourceNode) (parseInputRef raw).2
    obtain ⟨target, htarget⟩ := recenteredThreshold_numbers node.kind portOut (random node.id) xs
    have hget : s.child.getNode (parseInputRef raw).1 = .ok source := getNode_eq_ok.mpr hsourceNode
    obtain ⟨hkey, hreplaces⟩ := crosses_replaces hcross target
    have hstep : (do
        let parent ← (s.child.getNode (parseInputRef (node.inputs.headD "")).1).mapError .raised
        let type ← portType parent.kind (parseInputRef (node.inputs.headD "")).2
        let target ← recenteredThreshold node.kind type (random node.id) (.numbers xs)
        pure ⟨s.child.assign node.id "threshold" (.lit (ProbeFloat.literal target)), true⟩ :
          Except SearchError Recentering) =
        .ok ⟨s.child.assign node.id "threshold" (.lit (ProbeFloat.literal target)), true⟩ := by
      simp only [hinputs, List.headD_cons, hget]
      exact bind_of_ok rfl (bind_of_ok hport (bind_of_ok htarget rfl))
    simp only [hstep]
    exact guarded_ok ⟨hs.assign hnodup hn hkey hreplaces, fun h => (by cases h)⟩

/-- What an operation leaves of a genome: valid, with the same graph. -/
def Kept (genome : Genome) (F : Type) [ProbeFloat F] (limits : Limits) (child : Genome) : Prop :=
  RepairOf F genome child ∧ validateGenome F child limits.maxDepth limits.maxNodes = .ok ()

/-- An operation returns what it changed after a check, and the genome before when it changed
nothing. -/
theorem kept_of_changed (hprobeable : Probeable genome frame limits)
    (hkept : Kept genome F limits current) {child : Genome} {changed : Bool}
    (hchild : RepairOf F current child) (hsame : changed = false → child = current) :
    Guarded Caught
      (if changed = true then validateOrRaise F child limits
        else (pure child : Except SearchError Genome)) (Kept genome F limits) := by
  have hrepair := hkept.1.trans hchild
  cases changed with
  | false =>
    obtain rfl := hsame rfl
    exact guarded_pure hkept
  | true =>
    refine (hrepair.validateOrRaise_guarded hprobeable.valid).mono ?_
    rintro _ ⟨rfl, hvalid⟩
    exact ⟨hrepair, hvalid⟩

theorem repairRecenterThresholds_guarded {random : String → F}
    (hprobeable : Probeable genome frame limits) (hkept : Kept genome F limits current)
    (hsafe : RecenterSafe random frame current) :
    Guarded Caught (repairRecenterThresholds random current frame limits)
      (Kept genome F limits) := by
  obtain ⟨params, hparams⟩ := hkept.1.defaultTrialParams_ok hprobeable.valid
  have hdefaults := defaults_of_ok hparams
  unfold repairRecenterThresholds
  rw [hparams]
  refine Guarded.bind (x := .ok params) (guarded_ok (P := fun ps => params = ps) rfl) ?_
  rintro _ - rfl
  have hloop : Guarded Caught
      (current.nodes.foldlM (recenterNode random frame params) ⟨current, false⟩)
      fun s => RepairOf F current s.child ∧ (s.changed = false → s.child = current) := by
    refine guarded_foldlM _ ⟨.refl current, fun _ => rfl⟩ ?_
    rintro before node after s hsplit hbefore ⟨hs, hsame⟩
    refine recenterNode_guarded hprobeable hkept.1 hs hsame ?_ hdefaults
      (hsafe params before node after s hparams hsplit hbefore)
    rw [hsplit]
    exact List.mem_append_right _ List.mem_cons_self
  exact hloop.bind fun s _ hs => kept_of_changed hprobeable hkept hs.1 hs.2

/-! ## Periods -/

/-- The periods that a kind may have. -/
def NodeKind.periods (kind : NodeKind) : List String :=
  (nodeSpec kind).allowedParamKeys.filter fun key => decide (key ∈ periodParamKeys)

/-- The evaluation of an indicator reads each of its periods. -/
theorem hasInt_of_requirements {kind : NodeKind} (hfamily : kind.family = .ind) {key : String}
    (hkey : key ∈ kind.periods) {params : Params} {count : ℕ}
    (h : Requirements frame none kind params count) : HasInt params key fun _ => True := by
  have hweaken : ∀ {key : String} {P : ℤ → Prop}, HasInt params key P →
      HasInt params key fun _ => True := fun hP => hP.imp fun _ hP => ⟨hP.1, trivial⟩
  have hone : ∀ {k : String}, kind.periods = [k] → key = k := fun hperiods =>
    List.mem_singleton.mp (hperiods ▸ hkey)
  have hnone : kind.periods ≠ [] := fun hperiods => by
    rw [hperiods] at hkey
    cases hkey
  cases kind <;> cases hfamily
  case indMa.refl =>
    obtain rfl := hone (k := "period") (by decide)
    exact hweaken h.1
  case indEma.refl =>
    obtain rfl := hone (k := "period") (by decide)
    exact hweaken h
  case indRsi.refl =>
    obtain rfl := hone (k := "period") (by decide)
    exact hweaken h
  case indAtr.refl =>
    obtain rfl := hone (k := "period") (by decide)
    exact hweaken h
  case indMacd.refl =>
    have hperiods : NodeKind.indMacd.periods = ["fast_period", "slow_period"] := by decide
    rw [hperiods, List.mem_pair] at hkey
    obtain rfl | rfl := hkey
    · exact hweaken h.1
    · exact hweaken h.2.1
  case indBollinger.refl =>
    obtain rfl := hone (k := "period") (by decide)
    exact hweaken h.1
  case indDonchian.refl =>
    obtain rfl := hone (k := "period") (by decide)
    exact hweaken h
  case indMomentum.refl =>
    obtain rfl := hone (k := "lookback_bars") (by decide)
    exact hweaken h
  case indRealizedVol.refl => exact absurd (by decide) hnone
  case indDiff.refl => exact absurd (by decide) hnone
  case indRatio.refl => exact absurd (by decide) hnone
  case indTrbChannel.refl =>
    obtain rfl := hone (k := "period") (by decide)
    exact hweaken h.1
  case indMaBand.refl => exact absurd (by decide) hnone
  case indTsmom.refl =>
    have hperiods : NodeKind.indTsmom.periods = ["lookback_bars", "vol_window"] := by decide
    rw [hperiods, List.mem_pair] at hkey
    obtain rfl | rfl := hkey
    · exact hweaken h.1
    · exact hweaken h.2.2
  case indTrendBlend.refl =>
    have hperiods : NodeKind.indTrendBlend.periods =
        ["lookback_1", "lookback_2", "lookback_3", "vol_window"] := by decide
    rw [hperiods] at hkey
    simp only [List.mem_cons, List.not_mem_nil, or_false] at hkey
    obtain rfl | rfl | rfl | rfl := hkey
    · exact hweaken h.1
    · exact hweaken h.2.1
    · exact hweaken h.2.2.1
    · exact hweaken h.2.2.2
  case indLatent.refl => exact absurd (by decide) hnone

/-- `value * 0.6` raises nothing. -/
def Value.Scalable : Value → Bool
  | .int n => decide (|n| < floatLimit)
  | .float _ | .bool _ => true
  | _ => false

theorem scalable_int {n : ℤ} : (Value.int n).Scalable = true ↔ |n| < floatLimit := by
  unfold Value.Scalable
  exact decide_eq_true_iff

theorem sixTenths_ok {value : Value} (h : value.Scalable = true) :
    ∃ n, sixTenths value = .ok n := by
  cases value with
  | int n =>
    have hlt : ¬ floatLimit ≤ |n| := not_le.mpr (scalable_int.mp h)
    simp only [sixTenths, if_neg hlt]
    exact ⟨_, rfl⟩
  | float q => exact ⟨_, rfl⟩
  | bool b => exact ⟨_, rfl⟩
  | str s => cases h
  | null => cases h
  | other text => cases h

/-- A default that is a text is no integer, with or without a sign. -/
theorem default_scalable : ∀ entry ∈ genomeParamBounds, entry.2.default.Scalable = true ∨
    entry.2.default.toInt.toOption = none ∧ entry.2.default.negate.toInt.toOption = none := by
  decide +kernel

theorem currentPeriod_scalable {node : GenomeNode} {key : String} {value : ParamValue}
    (hbound : ∀ param negate, value = .ref param negate →
      (genomeParamBounds.lookup param).isSome = true)
    (hsmall : ∀ n : ℤ, value = .lit (.int n) → |n| < floatLimit)
    (hshift : node.kind ≠ .transformShift) (hlookup : node.params.lookup key = some value)
    (hint : HasInt (resolveNodeParams (fun _ => none) node) key fun _ => True) {current : Value}
    (hcurrent : currentPeriod value = some current) : current.Scalable = true := by
  obtain ⟨n, hn, -⟩ := hint
  obtain ⟨resolved, hresolved, htoInt⟩ := bind_eq_ok.mp hn
  rw [getKey_eq_ok, lookup_resolveNodeParams hshift, hlookup] at hresolved
  obtain rfl := Option.some.inj hresolved
  cases value with
  | ref param negate =>
    obtain ⟨spec, hspec⟩ := Option.isSome_iff_exists.mp (hbound param negate rfl)
    obtain rfl : spec.default = current := by
      have hdefault := Option.some.inj hcurrent
      rw [hspec] at hdefault
      exact hdefault
    refine (default_scalable (param, spec) (mem_of_lookup hspec)).resolve_right ?_
    rintro ⟨hplain, hnegated⟩
    have hread : resolveParam (fun _ => none) (.ref param negate) =
        if negate then spec.default.negate else spec.default := by
      unfold resolveParam
      simp only [hspec]
      rfl
    rw [hread] at htoInt
    cases negate with
    | false =>
      rw [show spec.default.toInt = .ok n from htoInt] at hplain
      cases hplain
    | true =>
      rw [show spec.default.negate.toInt = .ok n from htoInt] at hnegated
      cases hnegated
  | lit value =>
    cases value with
    | int n =>
      obtain rfl := Option.some.inj hcurrent
      exact scalable_int.mpr (hsmall n rfl)
    | bool b =>
      obtain rfl := Option.some.inj hcurrent
      rfl
    | float q => cases hcurrent
    | str s => cases hcurrent
    | null => cases hcurrent
    | other text => cases hcurrent

/-! ## Shorter periods -/

theorem shortenKey_other {node node' : GenomeNode} {key other : String}
    (h : shortenKey node key = .ok node') (hne : other ≠ key) :
    node'.params.lookup other = node.params.lookup other := by
  unfold shortenKey at h
  split at h
  · obtain rfl := pure_eq_ok.mp h
    rfl
  next current hcurrent =>
    obtain ⟨shortened, -, hpure⟩ := bind_eq_ok.mp h
    obtain rfl := pure_eq_ok.mp hpure
    obtain ⟨value, hvalue, -⟩ := Option.bind_eq_some_iff.mp hcurrent
    rw [lookup_assign node key other _ (isSome_lookup.mp (by rw [hvalue]; rfl)), if_neg hne]

theorem foldlM_shortenKey_other {node node' : GenomeNode} {keys : List String} {other : String}
    (h : keys.foldlM shortenKey node = .ok node') (hother : other ∉ keys) :
    node'.params.lookup other = node.params.lookup other := by
  refine foldlM_invariant (fun n : GenomeNode =>
    n.params.lookup other = node.params.lookup other) ?_ rfl h
  intro n key n' hkey hn hstep
  refine (shortenKey_other hstep fun heq => hother ?_).trans hn
  rw [heq]
  exact hkey

theorem foldlM_shortenKey_same {node : GenomeNode} {keys : List String}
    (h : ∀ key ∈ keys, (node.params.lookup key).bind currentPeriod = none) :
    keys.foldlM shortenKey node = .ok node := by
  induction keys with
  | nil => rfl
  | cons key keys ih =>
    have hstep : shortenKey node key = .ok node := by
      unfold shortenKey
      rw [h key List.mem_cons_self]
      rfl
    rw [List.foldlM_cons]
    exact bind_of_ok hstep (ih fun k hk => h k (List.mem_cons_of_mem key hk))

theorem shortenNode_same {node : GenomeNode} (h : node.Shortens = false) :
    shortenNode node = .ok node := by
  unfold shortenNode
  by_cases hfamily : node.kind.family = .ind
  · rw [if_pos hfamily]
    unfold GenomeNode.Shortens at h
    rw [decide_eq_true hfamily, Bool.true_and, List.any_eq_false] at h
    exact foldlM_shortenKey_same fun key hkey => Option.not_isSome_iff_eq_none.mp (h key hkey)
  · rw [if_neg hfamily]
    rfl

theorem shortenNode_guarded (hprobeable : Probeable genome frame limits)
    (hrepair : RepairOf F genome current) (hsafe : ShortenSafe current) {node : GenomeNode}
    (hn : node ∈ current.nodes) : Guarded Caught (shortenNode node) (Repaired F node) := by
  unfold shortenNode
  by_cases hfamily : node.kind.family = .ind
  swap
  · rw [if_neg hfamily]
    exact guarded_pure (.refl node)
  rw [if_pos hfamily]
  have hvalid := validateNode_ok
    (hrepair.validateNode_ok (validateGenome_eq_ok.mp hprobeable.valid).2.2.1 node hn)
  have hnone : Defaults fun _ => none := fun _ _ hnone => by cases hnone
  have hshift : node.kind ≠ .transformShift := fun heq => by
    rw [heq] at hfamily
    cases hfamily
  obtain ⟨before, hbefore, hrepaired⟩ := hrepair.exists_node hn
  have hcount : (nodeSpec node.kind).minInputs ≤ before.inputs.length := by
    rw [← (shape_eq_iff.mp hrepaired.shape).2.2]
    exact hvalid.2.2.arity.1
  have hcomputes := hrepaired.computes hnone hnone (hrepaired.kind ▸ hcount)
    (hprobeable.runs.computes before hbefore)
  have hrows : node.kind.Ranks = true → 0 < frame.rows.length := by
    intro hranks
    revert hfamily hranks
    cases node.kind <;> first
      | exact fun h _ => absurd h (by decide)
      | exact fun _ h => absurd h (by decide)
  rw [computes_iff frame hrows hcount] at hcomputes
  refine guarded_foldlM (Repaired F node) (.refl node) ?_
  intro done key after node' hsplit hdone hnode'
  have hnodup : periodParamKeys.Nodup := by decide
  have hkey : key ∈ periodParamKeys := by
    rw [hsplit]
    exact List.mem_append_right _ List.mem_cons_self
  have hfresh : key ∉ done := by
    rw [hsplit] at hnodup
    exact fun hmem => (List.nodup_append.mp hnodup).2.2 key hmem key List.mem_cons_self rfl
  have hlookup := foldlM_shortenKey_other hdone hfresh
  unfold shortenKey
  cases hcurrent : (node'.params.lookup key).bind currentPeriod with
  | none => exact guarded_pure hnode'
  | some scaled =>
    obtain ⟨value, hvalue, hscaled⟩ := Option.bind_eq_some_iff.mp hcurrent
    rw [hlookup] at hvalue
    have hmem := mem_of_lookup hvalue
    have hallowed := hvalid.1 key (List.mem_map_of_mem hmem)
    have hint := hasInt_of_requirements hfamily
      (List.mem_filter.mpr ⟨hallowed, decide_eq_true hkey⟩) hcomputes
    have hscalable := currentPeriod_scalable
      (fun param negate heq => ensure_eq_ok.mp (heq ▸ hvalid.2.1 _ hmem))
      (fun n heq => hsafe node hn hfamily key hkey n (heq ▸ hvalue)) hshift hvalue hint hscaled
    obtain ⟨n, hsix⟩ := sixTenths_ok hscalable
    simp only [hsix]
    refine guarded_ok (hnode'.assign (List.mem_map_of_mem hmem) ?_)
    exact .period _ hfamily hkey (le_max_left 2 n)

theorem repairShortenLookbacks_guarded (hprobeable : Probeable genome frame limits)
    (hkept : Kept genome F limits current) (hsafe : ShortenSafe current) :
    Guarded Caught (repairShortenLookbacks F current limits) (Kept genome F limits) := by
  unfold repairShortenLookbacks
  have hnodes : ∀ node ∈ current.nodes, Guarded Caught (shortenNode node) (Repaired F node) :=
    fun node hn => shortenNode_guarded hprobeable hkept.1 hsafe hn
  refine (guarded_mapM hnodes).bind fun nodes hmapM hrepaired => ?_
  refine kept_of_changed hprobeable hkept ⟨⟨shapes_of_forall₂ hrepaired, rfl, rfl, rfl⟩, hrepaired⟩ ?_
  intro hunchanged
  have hsame : current.nodes.mapM shortenNode = .ok current.nodes :=
    mapM_eq_ok_of_forall₂ (List.forall₂_same.mpr fun node hn =>
      shortenNode_same (List.any_eq_false.mp hunchanged node hn |> Bool.eq_false_iff.mpr))
  obtain rfl := Except.ok.inj (hmapM.symm.trans hsame)
  rfl

/-! ## Other entries -/

theorem relaxEntry_guarded {choice : Side → ℕ} (hprobeable : Probeable genome frame limits)
    (hcurrent : RepairOf F genome current) {s : Recentering} (hs : RepairOf F current s.child)
    (hsame : s.changed = false → s.child = current) (side : Side) :
    Guarded Caught (relaxEntry choice s side) fun s' =>
      RepairOf F current s'.child ∧ (s'.changed = false → s'.child = current) := by
  unfold relaxEntry
  cases hnode : s.child.node? (parseInputRef (s.child.entryRef side)).1 with
  | none => exact guarded_pure ⟨hs, hsame⟩
  | some node =>
    simp only
    by_cases hkind : node.kind = .logicAnd
    swap
    · rw [if_neg hkind]
      exact guarded_pure ⟨hs, hsame⟩
    rw [if_pos hkind]
    have hvalid := (hcurrent.trans hs).validateNode_ok
      (validateGenome_eq_ok.mp hprobeable.valid).2.2.1 node (KeyedTables.mem_of_lookup hnode)
    have harity := (validateNode_ok hvalid).2.2.arity.1
    rw [hkind] at harity
    have hpos : 0 < node.parents.length := by
      rw [GenomeNode.parents, List.length_map]
      exact lt_of_lt_of_le (by decide) harity
    rw [List.getElem?_eq_getElem (Nat.mod_lt _ hpos)]
    exact guarded_pure ⟨hs.setEntry _ side, fun h => (by cases h)⟩

theorem repairRelaxLogicAnd_guarded {choice : Side → ℕ} (hprobeable : Probeable genome frame limits)
    (hkept : Kept genome F limits current) :
    Guarded Caught (repairRelaxLogicAnd F choice current limits) (Kept genome F limits) := by
  unfold repairRelaxLogicAnd
  have hloop : Guarded Caught ([Side.long, Side.short].foldlM (relaxEntry choice) ⟨current, false⟩)
      fun s => RepairOf F current s.child ∧ (s.changed = false → s.child = current) := by
    refine guarded_foldlM _ ⟨.refl current, fun _ => rfl⟩ ?_
    rintro before side after s - - ⟨hs, hsame⟩
    exact relaxEntry_guarded hprobeable hkept.1 hs hsame side
  exact hloop.bind fun s _ hs => kept_of_changed hprobeable hkept hs.1 hs.2

end Operations

end QBackend.GenomeDsl
