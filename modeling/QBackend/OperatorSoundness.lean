import QBackend.GeneticOperators
import QBackend.RepairTotality

/-!
# Genetic operators keep genomes valid

Every operator on the nodes ends with the validator or leaves the genome as it is, so what can go
wrong is what the validator raises that is no `GenomeValidationError`: a bound of a clip that is a
number beside one that is not.
-/

namespace QBackend.GenomeDsl

open FallibleSteps DistinctKeys
open StrategyBuilder (genomeExitParamRef)

/-! ## Type errors of the validator -/

section TypeErrors

variable {F : Type} [PriceFloat F] {genome : Genome} {node : GenomeNode}

/-- Both bounds of a clip are literals, and one of them is a number. -/
def GenomeNode.ClashingClip (node : GenomeNode) : Prop :=
  node.kind = .transformClip ∧ ∃ low high, node.params.lookup "clip_low" = some (.lit low) ∧
    node.params.lookup "clip_high" = some (.lit high) ∧ low.number?.isSome ≠ high.number?.isSome

theorem compareLiterals_typeError {bad : ℚ → ℚ → Bool} {value : Value} {bound : ParamValue}
    {e : ValidationError} (he : e ≠ .typeError) :
    compareLiterals bad value bound e = .error .typeError ↔
      value.number?.isSome = true ∧ ∃ other, bound = .lit other ∧ other.number? = none := by
  unfold compareLiterals
  cases hvalue : value.number? with
  | none => simp
  | some v =>
    cases bound with
    | ref param negate => simp
    | lit other =>
      cases hother : other.number? with
      | none => simp [hother]
      | some b => simp [ensure_eq_error, he, hother]

theorem validateClip_typeError {key : String} {value : Value}
    (hvalue : node.params.lookup key = some (.lit value))
    (h : validateClip node key value = .error .typeError) :
    ∃ low high, node.params.lookup "clip_low" = some (.lit low) ∧
      node.params.lookup "clip_high" = some (.lit high) ∧
      low.number?.isSome ≠ high.number?.isSome := by
  unfold validateClip at h
  split at h
  next hkey =>
    subst hkey
    cases hhigh : node.params.lookup "clip_high" with
    | none => simp [hhigh] at h
    | some bound =>
      simp only [hhigh] at h
      obtain ⟨hnumber, high, rfl, hnone⟩ := (compareLiterals_typeError (by simp)).mp h
      exact ⟨value, high, hvalue, rfl, by simp [hnumber, hnone]⟩
  next =>
    split at h
    next hkey =>
      subst hkey
      cases hlow : node.params.lookup "clip_low" with
      | none => simp [hlow] at h
      | some bound =>
        simp only [hlow] at h
        obtain ⟨hnumber, low, rfl, hnone⟩ := (compareLiterals_typeError (by simp)).mp h
        exact ⟨low, value, rfl, hvalue, by simp [hnumber, hnone]⟩
    next => cases h

theorem validateWindow_ne_typeError {start stop : Value} :
    validateWindow F node start stop ≠ .error .typeError := by
  unfold validateWindow
  split
  · simp [ensure_eq_error]
  · simp

theorem validateParam_typeError {param : String × ParamValue} (hparam : param ∈ node.params)
    (h : validateParam F node param = .error .typeError) : node.ClashingClip := by
  obtain ⟨key, value⟩ := param
  cases value with
  | ref name negate =>
    unfold validateParam at h
    simp [ensure_eq_error] at h
  | lit value =>
    have hlookup := lookup_of_mem node.keysNodup hparam
    change validateLiteral F node key value = _ at h
    unfold validateLiteral at h
    split at h
    · simp [ensure_eq_error] at h
    · split at h
      · simp [ensure_eq_error] at h
      · split at h
        next hkind => exact ⟨hkind, validateClip_typeError hlookup h⟩
        · split at h
          · exact absurd h validateWindow_ne_typeError
          · split at h
            · simp [ensure_eq_error] at h
            · cases h

/-- A bound that is a number does not compare with one that is not. -/
theorem validateClip_clash {key : String} {value : Value} {low high : Value}
    (hlow : node.params.lookup "clip_low" = some (.lit low))
    (hhigh : node.params.lookup "clip_high" = some (.lit high))
    (hne : low.number?.isSome ≠ high.number?.isSome)
    (hkey : key = "clip_low" ∧ value = low ∨ key = "clip_high" ∧ value = high) :
    validateClip node key value =
      if value.number?.isSome then .error .typeError else .ok () := by
  obtain ⟨rfl, rfl⟩ | ⟨rfl, rfl⟩ := hkey
  · simp only [validateClip, if_true, hhigh, compareLiterals]
    cases hvalue : value.number? with
    | none => rfl
    | some v =>
      have hnone : high.number? = none := by simpa [hvalue] using hne
      simp [hnone]
  · simp only [validateClip, hlow, compareLiterals]
    rw [if_neg (by decide), if_true]
    cases hvalue : value.number? with
    | none => rfl
    | some v =>
      have hnone : low.number? = none := by simpa [hvalue] using hne
      simp [hnone]

theorem validateParam_clip (hkind : node.kind = .transformClip) (key : String) (value : Value) :
    validateParam F node (key, .lit value) = validateClip node key value := by
  change validateLiteral F node key value = _
  unfold validateLiteral
  rw [if_neg (by simp [hkind]), if_neg (by simp [hkind]), if_pos hkind]

theorem validateParams_clash (hclash : node.ClashingClip)
    (hkeys : ∀ key ∈ node.params.map Prod.fst, key ∈ (nodeSpec node.kind).allowedParamKeys) :
    node.params.forM (validateParam F node) = .error .typeError := by
  obtain ⟨hkind, low, high, hlow, hhigh, hne⟩ := hclash
  have hparam : ∀ param ∈ node.params, ∃ value, param.2 = .lit value ∧
      validateParam F node param = if value.number?.isSome then .error .typeError else .ok () := by
    rintro ⟨key, bound⟩ hmem
    have hlookup := lookup_of_mem node.keysNodup hmem
    have hkey : key = "clip_low" ∨ key = "clip_high" := by
      have hallowed := hkeys key (List.mem_map_of_mem hmem)
      rw [hkind] at hallowed
      simpa [nodeSpec] using hallowed
    obtain rfl | rfl := hkey
    · obtain rfl := Option.some.inj (hlookup.symm.trans hlow)
      refine ⟨low, rfl, ?_⟩
      rw [validateParam_clip hkind]
      exact validateClip_clash hlow hhigh hne (.inl ⟨rfl, rfl⟩)
    · obtain rfl := Option.some.inj (hlookup.symm.trans hhigh)
      refine ⟨high, rfl, ?_⟩
      rw [validateParam_clip hkind]
      exact validateClip_clash hlow hhigh hne (.inr ⟨rfl, rfl⟩)
  cases hforM : node.params.forM (validateParam F node) with
  | ok u =>
    have hall := forM_eq_ok.mp hforM
    have hfail : ∀ value : Value, value.number?.isSome = true → ∀ key,
        node.params.lookup key = some (.lit value) → False := by
      intro value hnumber key hlookup
      obtain ⟨value', heq, hresult⟩ := hparam _ (mem_of_lookup hlookup)
      obtain rfl := ParamValue.lit.inj heq
      rw [hall _ (mem_of_lookup hlookup), if_pos hnumber] at hresult
      cases hresult
    cases hnumber : low.number?.isSome with
    | true => exact (hfail low hnumber _ hlow).elim
    | false =>
      have hnumber' : high.number?.isSome = true :=
        Bool.eq_true_of_not_eq_false fun h => hne (hnumber.trans h.symm)
      exact (hfail high hnumber' _ hhigh).elim
  | error e =>
    obtain ⟨param, hmem, herror⟩ := forM_eq_error hforM
    obtain ⟨value, -, hresult⟩ := hparam param hmem
    rw [herror] at hresult
    split at hresult
    · exact hresult
    · cases hresult

theorem validateInput_error {raw : String} {e : ValidationError}
    (h : validateInput genome node raw = .error e) : e ≠ .typeError := by
  unfold validateInput at h
  split at h
  · rw [← Except.error.inj h]
    exact ValidationError.noConfusion
  · split at h
    · rw [← Except.error.inj h]
      exact ValidationError.noConfusion
    · rw [← (ensure_eq_error.mp h).2]
      exact ValidationError.noConfusion

theorem validateNode_typeError (h : validateNode F genome node = .error .typeError) :
    node.ClashingClip := by
  simp only [validateNode, bind_eq_error, ensure_eq_error] at h
  obtain ⟨-, h⟩ | ⟨_, -, h | ⟨_, -, ⟨-, h⟩ | ⟨_, -, h⟩⟩⟩ := h
  · cases h
  · obtain ⟨param, hparam, herror⟩ := forM_eq_error h
    exact validateParam_typeError hparam herror
  · cases h
  · obtain ⟨raw, -, herror⟩ := forM_eq_error h
    exact absurd rfl (validateInput_error herror)

theorem validateExitBinding_error {preset : String} {binding : String × ParamValue}
    {e : ValidationError} (h : validateExitBinding preset binding = .error e) : e ≠ .typeError := by
  unfold validateExitBinding at h
  split at h
  · cases h
  · obtain h | ⟨_, -, h⟩ := bind_eq_error.mp h
    · rw [← (ensure_eq_error.mp h).2]
      exact ValidationError.noConfusion
    · split at h
      · cases h
      · rw [← (ensure_eq_error.mp h).2]
        exact ValidationError.noConfusion

theorem validateExitRulePolicy_error {e : ValidationError}
    (h : validateExitRulePolicy genome = .error e) : e ≠ .typeError := by
  unfold validateExitRulePolicy at h
  split at h
  · cases h
  · split at h
    · rw [← Except.error.inj h]
      exact ValidationError.noConfusion
    · obtain h | ⟨_, -, h⟩ := bind_eq_error.mp h
      · rw [← (ensure_eq_error.mp h).2]
        exact ValidationError.noConfusion
      · obtain h | ⟨_, -, h⟩ := bind_eq_error.mp h
        · rw [← (ensure_eq_error.mp h).2]
          exact ValidationError.noConfusion
        · split at h
          · rw [← Except.error.inj h]
            exact ValidationError.noConfusion
          · obtain h | ⟨_, -, h⟩ := bind_eq_error.mp h
            · rw [← (ensure_eq_error.mp h).2]
              exact ValidationError.noConfusion
            · obtain ⟨binding, -, herror⟩ := forM_eq_error h
              exact validateExitBinding_error herror

theorem validateGenome_typeError {maxDepth maxNodes : ℕ}
    (h : validateGenome F genome maxDepth maxNodes = .error .typeError) :
    ∃ node ∈ genome.nodes, node.ClashingClip := by
  simp only [validateGenome, assertAcyclic, bind_eq_error, ensure_eq_error] at h
  obtain ⟨-, h⟩ | ⟨_, -, ⟨-, h⟩ | ⟨_, -, h | ⟨_, -, ⟨-, h⟩ | ⟨_, -, h | ⟨_, -, h⟩⟩⟩⟩⟩ := h
  · cases h
  · cases h
  · obtain ⟨node, hnode, herror⟩ := forM_eq_error h
    exact ⟨node, hnode, validateNode_typeError herror⟩
  · cases h
  · obtain ⟨node, -, herror⟩ := forM_eq_error h
    cases (ensure_eq_error.mp herror).2
  · obtain h | ⟨_, -, h⟩ := h
    · exact absurd rfl (validateSignalRefs_error h)
    · exact absurd rfl (validateExitRulePolicy_error h)

theorem validateNode_clash (hclash : node.ClashingClip)
    (hkeys : ∀ key ∈ node.params.map Prod.fst, key ∈ (nodeSpec node.kind).allowedParamKeys) :
    validateNode F genome node = .error .typeError := by
  have hknown : (node.params.map Prod.fst).filter
      (fun key => key ∉ (nodeSpec node.kind).allowedParamKeys) = [] :=
    List.filter_eq_nil_iff.mpr fun key hkey => by simpa using hkeys key hkey
  unfold validateNode
  refine bind_of_ok (a := ()) (ensure_eq_ok.mpr hknown) ?_
  rw [validateParams_clash hclash hkeys]
  rfl

theorem not_clashingClip_of_ok (h : validateNode F genome node = .ok ()) :
    ¬ node.ClashingClip := by
  intro hclash
  rw [validateNode_clash hclash (validateNode_ok h).1] at h
  cases h

end TypeErrors

/-! ## Clips in a changed genome -/

section Clips

variable {node node' : GenomeNode} {genome : Genome}

theorem clashingClip_congr (hkind : node'.kind = node.kind) (hparams : node'.params = node.params) :
    node'.ClashingClip ↔ node.ClashingClip := by
  unfold GenomeNode.ClashingClip
  rw [hkind, hparams]

theorem not_clashingClip_randomNode (id : String) (kind : NodeKind) (inputs : List String)
    (latent : ℕ) (nLatents : ℤ) : ¬ (randomNode id kind inputs latent nLatents).ClashingClip := by
  rintro ⟨hkind, low, -, hlow, -⟩
  obtain ⟨key, -, heq⟩ := List.mem_map.mp (mem_of_lookup hlow)
  obtain ⟨rfl, hvalue⟩ := Prod.mk.inj heq
  change kind = .transformClip at hkind
  subst hkind
  cases hvalue

theorem not_clashingClip_change {id : String} {f : GenomeNode → GenomeNode}
    (h : ∀ node ∈ genome.nodes, ¬ node.ClashingClip)
    (hf : ∀ node ∈ genome.nodes, node.id = id → ¬ (f node).ClashingClip) :
    ∀ node ∈ (genome.change id f).nodes, ¬ node.ClashingClip := by
  intro node hnode
  obtain ⟨old, hold, hid, rfl⟩ | ⟨hmem, -⟩ := KeyedTables.mem_modify.mp hnode
  · exact hf old hold hid
  · exact h node hmem

theorem mem_of_choose {α : Type} {draw : ℕ} {xs : List α} {x : α} (h : choose draw xs = some x) :
    x ∈ xs :=
  List.mem_of_getElem? h

theorem choose_eq_none {α : Type} {draw : ℕ} {xs : List α} : choose draw xs = none ↔ xs = [] := by
  unfold choose
  rw [List.getElem?_eq_none_iff]
  constructor
  · intro hle
    by_contra hne
    exact absurd (Nat.mod_lt draw (List.length_pos_of_ne_nil hne)) (not_lt.mpr hle)
  · rintro rfl
    exact Nat.zero_le _

end Clips

/-! ## Operators on the nodes -/

/-- The genome is valid within the limits. -/
def ValidWithin (F : Type) [PriceFloat F] (limits : Limits) (genome : Genome) : Prop :=
  validateGenome F genome limits.maxDepth limits.maxNodes = .ok ()

/-- A valid genome is returned, or a `GenomeValidationError` is raised. -/
def Sound (F : Type) [PriceFloat F] (limits : Limits) (result : Except OperatorError Genome) : Prop :=
  Guarded (fun e => e.isValidation = true) result (ValidWithin F limits)

section NodeOperators

variable {F : Type} [ProbeFloat F] {draws : MutationDraws F} {config : MutationConfig}
  {genome : Genome} {limits : Limits} {node : GenomeNode}

theorem ValidWithin.not_clashingClip (h : ValidWithin F limits genome) :
    ∀ node ∈ genome.nodes, ¬ node.ClashingClip := fun node hnode =>
  not_clashingClip_of_ok ((validateGenome_eq_ok.mp h).2.2.1 node hnode)

theorem ValidWithin.nodup (h : ValidWithin F limits genome) : genome.ids.Nodup :=
  (validateGenome_eq_ok.mp h).2.1

theorem sound_ok (h : ValidWithin F limits genome) : Sound F limits (.ok genome) := guarded_ok h

theorem validated_sound_iff : Sound F limits (validated F genome limits) ↔
    validateGenome F genome limits.maxDepth limits.maxNodes ≠ .error .typeError := by
  unfold Sound validated validateOrRaise
  cases hresult : validateGenome F genome limits.maxDepth limits.maxNodes with
  | ok u =>
    refine ⟨fun _ h => (by cases h), fun _ => ?_⟩
    exact .inl ⟨genome, rfl, hresult⟩
  | error e =>
    constructor
    · rintro (⟨_, h, -⟩ | ⟨_, h, hvalidation⟩) heq
      · cases h
      · cases heq
        cases h
        cases hvalidation
    · intro hne
      refine .inr ⟨.search (.invalid e), rfl, decide_eq_true fun heq => hne ?_⟩
      rw [heq]

theorem validated_sound (h : ∀ node ∈ genome.nodes, ¬ node.ClashingClip) :
    Sound F limits (validated F genome limits) := by
  refine validated_sound_iff.mpr fun herror => ?_
  obtain ⟨node, hnode, hclash⟩ := validateGenome_typeError herror
  exact h node hnode hclash

theorem replacedRef_guarded (child : Genome) (removed ref : String) :
    Guarded (fun e => e.isValidation = true) (replacedRef child removed ref) fun _ => True := by
  unfold replacedRef
  split
  · split
    · exact guarded_error rfl
    · exact guarded_ok trivial
  · exact guarded_ok trivial

variable (hvalid : ValidWithin F limits genome)

include hvalid

theorem mutateRewire_sound : Sound F limits (mutateRewire draws genome limits) := by
  unfold mutateRewire
  split
  · exact sound_ok hvalid
  · split
    · exact sound_ok hvalid
    · refine validated_sound (not_clashingClip_change hvalid.not_clashingClip fun node hnode _ => ?_)
      exact (clashingClip_congr rfl rfl).not.mpr (hvalid.not_clashingClip node hnode)

theorem mutateSwapIndicator_sound :
    Sound F limits (mutateSwapIndicator draws config genome limits) := by
  unfold mutateSwapIndicator
  split
  · exact sound_ok hvalid
  · split
    · exact sound_ok hvalid
    · exact validated_sound (not_clashingClip_change hvalid.not_clashingClip fun node _ _ =>
        not_clashingClip_randomNode _ _ _ _ _)

theorem mutateSwapExit_sound : Sound F limits (mutateSwapExit draws genome limits) := by
  unfold mutateSwapExit
  split
  · split
    · exact sound_ok hvalid
    · exact validated_sound (hvalid.not_clashingClip)
  · exact sound_ok hvalid

theorem not_clashingClip_withClose : ∀ node ∈ genome.withClose.1.nodes, ¬ node.ClashingClip := by
  unfold Genome.withClose
  split
  · exact hvalid.not_clashingClip
  · intro node hnode
    obtain rfl | hnode := List.mem_cons.mp hnode
    · rintro ⟨hkind, -⟩
      cases hkind
    · exact hvalid.not_clashingClip node hnode

theorem mutateAddNode_sound : Sound F limits (mutateAddNode draws genome limits) := by
  have hkinds : addNodeKinds ≠ [] := by decide
  unfold mutateAddNode
  split
  · exact sound_ok hvalid
  · simp only
    split
    next hnone => exact absurd (choose_eq_none.mp hnone) hkinds
    next kind _ =>
      have hadded : ∀ node ∈ genome.withClose.1.nodes ++
          [addedNode draws genome.withClose.1.nodes.length genome.withClose.2 kind],
          ¬ node.ClashingClip := by
        intro node hnode
        obtain hnode | hnode := List.mem_append.mp hnode
        · exact not_clashingClip_withClose hvalid node hnode
        · obtain rfl := List.mem_singleton.mp hnode
          exact not_clashingClip_randomNode _ _ _ _ _
      refine validated_sound ?_
      split
      · exact hadded
      · split
        · exact hadded
        · exact hadded

theorem mutateRemoveNode_sound : Sound F limits (mutateRemoveNode draws genome limits) := by
  unfold mutateRemoveNode
  simp only
  split
  · exact sound_ok hvalid
  next hmany =>
    split
    next target first _ _ =>
      refine (replacedRef_guarded _ _ _).bind fun _ _ _ => ?_
      refine (replacedRef_guarded _ _ _).bind fun _ _ _ => ?_
      refine (replacedRef_guarded _ _ _).bind fun _ _ _ => ?_
      refine (replacedRef_guarded _ _ _).bind fun _ _ _ => ?_
      refine validated_sound fun node hnode => ?_
      obtain ⟨old, hold, rfl⟩ := List.mem_map.mp (List.mem_filter.mp hnode).1
      exact (clashingClip_congr rfl rfl).not.mpr (hvalid.not_clashingClip old hold)
    next hnone =>
      -- more than two nodes can be removed
      obtain ⟨target, htarget⟩ : ∃ target, choose draws.node (genome.nodes.filter fun node =>
          node.kind.family ≠ .source ∧ node.kind.family ≠ .exit) = some target := by
        refine Option.ne_none_iff_exists'.mp fun h => hmany ?_
        rw [choose_eq_none.mp h]
        exact Nat.zero_le 2
      have hmem := (List.mem_filter.mp (mem_of_choose htarget)).1
      obtain ⟨first, rest, hnodes⟩ := List.exists_cons_of_ne_nil (List.ne_nil_of_mem hmem)
      exact (hnone target first htarget (by rw [hnodes]; rfl)).elim

end NodeOperators

/-! ## Nudges -/

section Nudges

variable {F : Type} [ProbeFloat F] {draws : MutationDraws F} {config : MutationConfig}
  {genome : Genome} {limits : Limits} {node : GenomeNode} {key : String}

theorem lookup_assignKey {params : List (String × ParamValue)} {key other : String}
    {value : ParamValue} (hkey : key ∉ params.map Prod.fst) :
    (assignKey params key value).lookup other =
      if other = key then some value else params.lookup other := by
  rw [assignKey, if_neg hkey, List.lookup_append]
  by_cases hother : other = key
  · have hnone : params.lookup key = none :=
      Option.not_isSome_iff_eq_none.mp fun h => hkey (isSome_lookup.mp h)
    simp [hother, hnone]
  · have hb : (other == key) = false := beq_false_of_ne hother
    simp [hother, List.lookup_cons, hb]

theorem lookup_assign' (node : GenomeNode) (key other : String) (value : ParamValue) :
    (node.assign key value).params.lookup other =
      if other = key then some value else node.params.lookup other := by
  by_cases hkey : key ∈ node.params.map Prod.fst
  · exact lookup_assign node key other value hkey
  · exact lookup_assignKey hkey

/-- The other bound of a clip. -/
def otherBound (key : String) : String := if key = "clip_low" then "clip_high" else "clip_low"

/-- A bound of a clip is drawn, and the other bound is a literal that is no number. -/
def NudgesClip (draws : MutationDraws F) (genome : Genome) : Prop :=
  ∃ node key spec other, nudgeTarget draws genome = some (node, key, spec) ∧
    node.kind = .transformClip ∧ node.params.lookup (otherBound key) = some (.lit other) ∧
    other.number? = none

omit [ProbeFloat F] in
theorem nudgeTarget_eq_some {spec : ParamSpec}
    (h : nudgeTarget draws genome = some (node, key, spec)) :
    node ∈ genome.nodes ∧ key ∈ sortedParamKeys node.kind ∧
      genomeParamBounds.lookup key = some spec := by
  unfold nudgeTarget at h
  obtain ⟨node', hnode, h⟩ := Option.bind_eq_some_iff.mp h
  obtain ⟨key', hkey, h⟩ := Option.bind_eq_some_iff.mp h
  obtain ⟨spec', hspec, h⟩ := Option.bind_eq_some_iff.mp h
  cases h
  exact ⟨mem_of_choose hnode, mem_of_choose hkey, hspec⟩

theorem clip_keys (hkind : node.kind = .transformClip) (hkey : key ∈ sortedParamKeys node.kind) :
    key = "clip_low" ∨ key = "clip_high" := by
  rw [hkind] at hkey
  have hmem := (List.perm_insertionSort _ _).mem_iff.mp hkey
  simpa [nodeSpec] using hmem

omit [ProbeFloat F] in
theorem nudgedValue_clip {spec : ParamSpec} (nLatents : ℤ) (hkind : node.kind = .transformClip)
    (hkey : key = "clip_low" ∨ key = "clip_high") (hspec : genomeParamBounds.lookup key = some spec) :
    (nudgedValue draws nLatents node.kind key spec.bounds).number?.isSome = true := by
  have hfloat : ∃ lo hi, spec.bounds = .float lo hi := by
    obtain rfl | rfl := hkey
    · exact ⟨-5, 0, (Option.some.inj hspec) ▸ rfl⟩
    · exact ⟨0, 5, (Option.some.inj hspec) ▸ rfl⟩
  obtain ⟨lo, hi, hbounds⟩ := hfloat
  unfold nudgedValue
  rw [if_neg (by simp [hkind]), hbounds]
  rfl

theorem clashingClip_assign_iff {value : Value} (hvalue : value.number?.isSome = true)
    (hkind : node.kind = .transformClip) (hkey : key = "clip_low" ∨ key = "clip_high") :
    (node.assign key (.lit value)).ClashingClip ↔
      ∃ other, node.params.lookup (otherBound key) = some (.lit other) ∧ other.number? = none := by
  unfold GenomeNode.ClashingClip
  rw [and_iff_right (show (node.assign key (.lit value)).kind = .transformClip from hkind)]
  simp only [lookup_assign']
  obtain rfl | rfl := hkey
  · simp [otherBound, hvalue]
  · simp [otherBound, hvalue]

theorem sameGraph_assign (genome : Genome) (id key : String) (value : ParamValue) :
    SameGraph genome (genome.assign id key value) := by
  refine ⟨?_, rfl, rfl, rfl⟩
  refine KeyedTables.map_modify (g := GenomeNode.shape) fun node => ?_
  rfl

theorem SameGraph.validateNode {genome' : Genome} (h : SameGraph genome genome')
    (node : GenomeNode) : validateNode F genome' node = GenomeDsl.validateNode F genome node := by
  have hinput : ∀ raw, GenomeDsl.validateInput genome' node raw =
      GenomeDsl.validateInput genome node raw := fun raw => h.validateInput rfl raw
  unfold GenomeDsl.validateNode
  rw [funext hinput]

variable (hvalid : ValidWithin F limits genome)

include hvalid

/-- A nudge is checked: what the validator raises of it is a `TypeError` when a clip is given a
bound that the other one does not compare with. -/
theorem validated_assign_sound_iff (hnode : node ∈ genome.nodes)
    (hkey : key ∈ sortedParamKeys node.kind) (value : Value) :
    Sound F limits (validated F (genome.assign node.id key (.lit value)) limits) ↔
      ¬ (node.assign key (.lit value)).ClashingClip := by
  have hnodes : ∀ other ∈ (genome.assign node.id key (.lit value)).nodes,
      other = node.assign key (.lit value) ∨ other ∈ genome.nodes := by
    intro other hother
    obtain ⟨old, hold, hid, rfl⟩ | ⟨hmem, -⟩ := KeyedTables.mem_modify.mp hother
    · exact .inl (by rw [KeyedTables.eq_of_mem_of_key hvalid.nodup hold hnode hid])
    · exact .inr hmem
  have hsame := sameGraph_assign genome node.id key (.lit value)
  obtain ⟨hcount, hnd, hold, -⟩ := validateGenome_eq_ok.mp hvalid
  constructor
  · intro hsound hclash
    have hallowed : ∀ k ∈ (node.assign key (.lit value)).params.map Prod.fst,
        k ∈ (nodeSpec node.kind).allowedParamKeys := by
      intro k hk
      rw [← isSome_lookup, lookup_assign'] at hk
      by_cases heq : k = key
      · rw [heq]
        exact (List.perm_insertionSort _ _).mem_iff.mp hkey
      · rw [if_neg heq] at hk
        exact (validateNode_ok (hold node hnode)).1 k (isSome_lookup.mp hk)
    have hfails : (genome.assign node.id key (.lit value)).nodes.forM
        (validateNode F (genome.assign node.id key (.lit value))) = .error .typeError := by
      have herror : validateNode F (genome.assign node.id key (.lit value))
          (node.assign key (.lit value)) = .error .typeError := validateNode_clash hclash hallowed
      cases hforM : (genome.assign node.id key (.lit value)).nodes.forM
          (validateNode F (genome.assign node.id key (.lit value))) with
      | ok u =>
        have hmem : node.assign key (.lit value) ∈ (genome.assign node.id key (.lit value)).nodes :=
          KeyedTables.mem_modify.mpr (.inl ⟨node, hnode, rfl, rfl⟩)
        rw [forM_eq_ok.mp hforM _ hmem] at herror
        cases herror
      | error e =>
        obtain ⟨other, hother, he⟩ := forM_eq_error hforM
        obtain rfl | hmem := hnodes other hother
        · exact congrArg _ (Except.error.inj (he.symm.trans herror))
        · rw [hsame.validateNode, hold other hmem] at he
          cases he
    refine validated_sound_iff.mp hsound ?_
    unfold validateGenome
    refine bind_of_ok (a := ()) (ensure_eq_ok.mpr (hsame.length.trans_le hcount)) ?_
    refine bind_of_ok (a := ()) (ensure_eq_ok.mpr (hsame.ids ▸ hnd)) ?_
    rw [hfails]
    rfl
  · intro hclash
    refine validated_sound fun other hother => ?_
    obtain rfl | hmem := hnodes other hother
    · exact hclash
    · exact hvalid.not_clashingClip other hmem

theorem lightMutateParams_sound_iff : Sound F limits
    (lightMutateParams draws config.nLatents genome limits) ↔ ¬ NudgesClip draws genome := by
  unfold lightMutateParams NudgesClip
  cases htarget : nudgeTarget draws genome with
  | none => simp [sound_ok hvalid]
  | some target =>
    obtain ⟨node, key, spec⟩ := target
    obtain ⟨hnode, hkey, hspec⟩ := nudgeTarget_eq_some htarget
    simp only [Option.some.injEq, Prod.mk.injEq]
    rw [validated_assign_sound_iff hvalid hnode hkey, not_iff_not]
    by_cases hkind : node.kind = .transformClip
    · have hclip := clip_keys hkind hkey
      rw [clashingClip_assign_iff (nudgedValue_clip config.nLatents hkind hclip hspec) hkind hclip]
      constructor
      · rintro ⟨other, hother, hnone⟩
        exact ⟨node, key, spec, other, ⟨rfl, rfl, rfl⟩, hkind, hother, hnone⟩
      · rintro ⟨_, _, _, other, ⟨rfl, rfl, rfl⟩, -, hother, hnone⟩
        exact ⟨other, hother, hnone⟩
    · constructor
      · rintro ⟨hclip, -⟩
        exact absurd hclip hkind
      · rintro ⟨_, _, _, other, ⟨rfl, rfl, rfl⟩, hclip, -, -⟩
        exact absurd hclip hkind

end Nudges

/-! ## Repairs -/

section Repairs

variable {F : Type} [ProbeFloat F] {draws : RepairDraws F} {genome current candidate : Genome}
  {frame : Frame F} {limits : Limits} {minSignals : ℤ} {attempt : ℕ}

theorem validateOrRaise_eq_ok (h : validateOrRaise F genome limits = .ok candidate) :
    ValidWithin F limits candidate := by
  obtain ⟨_, hok, hpure⟩ := bind_eq_ok.mp h
  obtain rfl := pure_eq_ok.mp hpure
  exact mapError_eq_ok.mp hok

/-- Until a threshold or an entry is changed the genome of the loop is the one it started with. -/
def Recentering.Unless (genome : Genome) (s : Recentering) : Prop :=
  s.changed = false → s.child = genome

theorem recentering_valid {s : Recentering} (hvalid : ValidWithin F limits genome)
    (hs : s.Unless genome)
    (h : (if s.changed then validateOrRaise F s.child limits else pure s.child) = .ok candidate) :
    ValidWithin F limits candidate := by
  cases hchanged : s.changed with
  | true =>
    rw [if_pos hchanged] at h
    exact validateOrRaise_eq_ok h
  | false =>
    rw [if_neg (by simp [hchanged])] at h
    obtain rfl := pure_eq_ok.mp h
    rw [hs hchanged]
    exact hvalid

theorem recenterNode_unless {random : String → F} {trialParams : List (String × Value)}
    {s s' : Recentering} {node : GenomeNode} (hs : s.Unless genome)
    (h : recenterNode random frame trialParams s node = .ok s') : s'.Unless genome := by
  unfold recenterNode at h
  split at h
  · obtain ⟨found, -, h⟩ := bind_eq_ok.mp h
    cases found with
    | none => exact pure_eq_ok.mp h ▸ hs
    | some series =>
      obtain ⟨parent, -, h⟩ := bind_eq_ok.mp h
      obtain ⟨type, -, h⟩ := bind_eq_ok.mp h
      obtain ⟨target, -, h⟩ := bind_eq_ok.mp h
      rw [← pure_eq_ok.mp h]
      exact fun hchanged => by cases hchanged
  · exact pure_eq_ok.mp h ▸ hs

theorem relaxEntry_unless {choice : Side → ℕ} {s s' : Recentering} {side : Side}
    (hs : s.Unless genome) (h : relaxEntry choice s side = .ok s') : s'.Unless genome := by
  unfold relaxEntry at h
  split at h
  · exact pure_eq_ok.mp h ▸ hs
  · split at h
    · split at h
      · cases h
      · rw [← pure_eq_ok.mp h]
        exact fun hchanged => by cases hchanged
    · exact pure_eq_ok.mp h ▸ hs

theorem repairOperation_valid (hvalid : ValidWithin F limits current)
    (h : repairOperation draws attempt current frame limits = .ok candidate) :
    ValidWithin F limits candidate := by
  unfold repairOperation at h
  split at h
  · obtain ⟨trialParams, -, h⟩ := bind_eq_ok.mp h
    obtain ⟨s, hs, h⟩ := bind_eq_ok.mp h
    refine recentering_valid hvalid (foldlM_invariant (Recentering.Unless current) ?_ ?_ hs) h
    · exact fun s node s' _ hinv hstep => recenterNode_unless hinv hstep
    · exact fun _ => rfl
  · obtain ⟨nodes, hnodes, h⟩ := bind_eq_ok.mp h
    cases hshortens : current.nodes.any GenomeNode.Shortens with
    | true =>
      simp only [hshortens, if_true] at h
      exact validateOrRaise_eq_ok h
    | false =>
      have hsame : current.nodes.mapM shortenNode = .ok current.nodes := by
        refine mapM_eq_ok_of_forall₂ (List.forall₂_same.mpr fun node hnode => ?_)
        exact shortenNode_same (Bool.eq_false_iff.mpr (List.any_eq_false.mp hshortens node hnode))
      obtain rfl := Except.ok.inj (hnodes.symm.trans hsame)
      simp only [hshortens, Bool.false_eq_true, if_false] at h
      exact pure_eq_ok.mp h ▸ hvalid
  · obtain ⟨s, hs, h⟩ := bind_eq_ok.mp h
    refine recentering_valid hvalid (foldlM_invariant (Recentering.Unless current) ?_ ?_ hs) h
    · exact fun s side s' _ hinv hstep => relaxEntry_unless hinv hstep
    · exact fun _ => rfl

theorem repairAttempt_valid {outcome : Genome ⊕ Genome} (hvalid : ValidWithin F limits current)
    (h : repairAttempt draws frame minSignals limits current attempt = .ok outcome) :
    ValidWithin F limits (outcome.elim id id) := by
  unfold repairAttempt at h
  simp only at h
  split at h
  next outcome' hok =>
    obtain rfl := Except.ok.inj h
    obtain ⟨candidate, hcandidate, hok⟩ := bind_eq_ok.mp hok
    obtain ⟨stats, -, hok⟩ := bind_eq_ok.mp hok
    have hresult := repairOperation_valid hvalid hcandidate
    rw [← pure_eq_ok.mp hok]
    cases stats.isTradeable
    · exact hresult
    · exact hresult
  next e _ =>
    split at h
    · rw [← Except.ok.inj h]
      exact hvalid
    · cases h

theorem repairAttempts_valid {attempts : List ℕ} (hvalid : ValidWithin F limits current)
    (h : repairAttempts draws frame minSignals limits attempts current = .ok candidate) :
    ValidWithin F limits candidate := by
  induction attempts generalizing current with
  | nil => exact Except.ok.inj h ▸ hvalid
  | cons attempt rest ih =>
    unfold repairAttempts at h
    obtain ⟨outcome, houtcome, h⟩ := bind_eq_ok.mp h
    have hresult := repairAttempt_valid hvalid houtcome
    cases outcome with
    | inl returned => exact pure_eq_ok.mp h ▸ hresult
    | inr next => exact ih hresult h

theorem repairGenome_valid {maxAttempts : ℕ} (hvalid : ValidWithin F limits genome)
    (h : repairGenome draws genome frame minSignals limits maxAttempts = .ok candidate) :
    ValidWithin F limits candidate := by
  unfold repairGenome at h
  obtain ⟨stats, -, h⟩ := bind_eq_ok.mp h
  split at h
  · exact pure_eq_ok.mp h ▸ hvalid
  · exact repairAttempts_valid hvalid h

end Repairs

/-! ## Probed nudges -/

section Probes

variable {F : Type} [ProbeFloat F] {draws : MutationDraws F} {config : MutationConfig}
  {probe : Option (Frame F)} {genome : Genome} {frame : Frame F} {limits : Limits}

theorem guarded_search_iff {α : Type} {x : Except SearchError α}
    {f : α → Except OperatorError Genome} {P : Genome → Prop} :
    Guarded (fun e => e.isValidation = true) (x.mapError OperatorError.search >>= f) P ↔
      Guarded Caught x fun a => Guarded (fun e => e.isValidation = true) (f a) P := by
  cases x with
  | ok a =>
    constructor
    · exact fun h => guarded_ok h
    · exact fun h => h.of_ok rfl
  | error e =>
    constructor
    · rintro (⟨_, h, -⟩ | ⟨_, h, hcaught⟩)
      · cases h
      · cases h
        exact guarded_error hcaught
    · rintro (⟨_, h, -⟩ | ⟨_, h, hcaught⟩)
      · cases h
      · cases h
        exact .inr ⟨_, rfl, hcaught⟩

/-- Probing the genome, its repair and the repaired genome raises nothing that is not caught, and
where a parameter is nudged in the end, it is no bound of a clip that does not compare. -/
def NudgeSafe (draws : MutationDraws F) (config : MutationConfig) (probe : Option (Frame F))
    (genome : Genome) (limits : Limits) : Prop :=
  match probes config probe with
  | none => ¬ NudgesClip draws genome
  | some frame =>
    Guarded Caught (genomeSignalActivity genome frame config.minSignals []) fun stats =>
      if stats.isTradeable then ¬ NudgesClip draws genome
      else Guarded Caught (repairGenome draws.repair genome frame config.minSignals limits
          config.repairMaxAttempts) fun repaired =>
        Guarded Caught (genomeSignalActivity repaired frame config.minSignals []) fun stats =>
          stats.isTradeable = false → ¬ NudgesClip draws genome

theorem mutateNudgeParam_sound_iff (hvalid : ValidWithin F limits genome) :
    Sound F limits (mutateNudgeParam draws config probe genome limits) ↔
      NudgeSafe draws config probe genome limits := by
  have hlight : Sound F limits (lightMutateParams draws config.nLatents genome limits) ↔
      ¬ NudgesClip draws genome := lightMutateParams_sound_iff hvalid
  unfold mutateNudgeParam NudgeSafe
  cases probes config probe with
  | none => exact hlight
  | some frame =>
    refine guarded_search_iff.trans (guarded_congr fun stats _ => ?_)
    cases stats.isTradeable with
    | true => exact hlight
    | false =>
      refine guarded_search_iff.trans (guarded_congr fun repaired hrepaired => ?_)
      refine guarded_search_iff.trans (guarded_congr fun stats _ => ?_)
      cases stats.isTradeable with
      | true =>
        have hok := repairGenome_valid hvalid hrepaired
        exact ⟨fun _ h => (by cases h), fun _ => sound_ok hok⟩
      | false => exact hlight.trans ⟨fun h _ => h, fun h => h rfl⟩

end Probes

/-! ## Exit policies -/

section ExitPolicies

variable {F : Type} [ProbeFloat F] {draws : MutationDraws F} {config : MutationConfig}
  {genome : Genome} {limits : Limits}

theorem nodeDepth_policy (policy : Option ExitRulePolicy) (fuel : ℕ) (id : String) :
    nodeDepth { genome with exitRulePolicy := policy } fuel id = nodeDepth genome fuel id := by
  induction fuel generalizing id with
  | zero => rfl
  | succ fuel ih =>
    unfold nodeDepth
    rw [funext ih]
    rfl

theorem validWithin_policy_iff (hvalid : ValidWithin F limits genome)
    (policy : Option ExitRulePolicy) :
    ValidWithin F limits { genome with exitRulePolicy := policy } ↔
      validateExitRulePolicy { genome with exitRulePolicy := policy } = .ok () := by
  obtain ⟨hcount, hnd, hnodes, hacyclic, hdepth, hsignals, -⟩ := validateGenome_eq_ok.mp hvalid
  have hdepth' : ∀ node ∈ genome.nodes,
      validateDepth { genome with exitRulePolicy := policy } limits.maxDepth node = .ok () := by
    intro node hnode
    have hold := hdepth node hnode
    unfold validateDepth at hold ⊢
    rw [nodeDepth_policy]
    exact hold
  constructor
  · exact fun h => (validateGenome_eq_ok.mp h).2.2.2.2.2.2
  · exact fun h => validateGenome_eq_ok.mpr
      ⟨hcount, hnd, hnodes, hacyclic, hdepth', hsignals, h⟩

theorem presets_valid : ∀ preset ∈ exitPresets,
    validateExitRulePolicy (attachExitRulePolicy ⟨[], "", "", "", "", none⟩ preset) = .ok () := by
  intro preset hpreset
  refine toBool_eq_true.mp ?_
  revert preset
  decide +kernel

theorem attachExitRulePolicy_valid (hvalid : ValidWithin F limits genome)
    {preset : String × List String} (hpreset : preset ∈ exitPresets) :
    ValidWithin F limits (attachExitRulePolicy genome preset) :=
  (validWithin_policy_iff hvalid _).mpr (presets_valid preset hpreset)

/-- The presets of the configuration exist. -/
def KnownPresets (config : MutationConfig) : Prop :=
  ∀ ids, config.exitPolicyPresetIds = some ids → ∀ id ∈ ids, id ∈ exitPresets.map Prod.fst

/-- A preset that is known is found, of another one a `KeyError` is raised. -/
theorem presetById_cases (id : String) :
    (id ∈ exitPresets.map Prod.fst ∧ ∃ preset ∈ exitPresets, presetById id = .ok preset) ∨
      (id ∉ exitPresets.map Prod.fst ∧
        presetById id = .error (.search (.raised (.keyError id)))) := by
  unfold presetById
  cases hfound : exitPresets.find? fun preset => preset.1 = id with
  | none =>
    refine .inr ⟨fun hmem => ?_, rfl⟩
    obtain ⟨preset, hpreset, rfl⟩ := List.mem_map.mp hmem
    exact absurd (decide_eq_true rfl) (List.find?_eq_none.mp hfound preset hpreset)
  | some preset =>
    have hmem := List.mem_of_find?_eq_some hfound
    have hid : preset.1 = id := by simpa using List.find?_some hfound
    exact .inl ⟨List.mem_map.mpr ⟨preset, hmem, hid⟩, preset, hmem, rfl⟩

theorem mapM_presetById (ids : List String) :
    ((∀ id ∈ ids, id ∈ exitPresets.map Prod.fst) ∧
        ∃ presets, ids.mapM presetById = .ok presets ∧ ∀ preset ∈ presets, preset ∈ exitPresets) ∨
      (¬ (∀ id ∈ ids, id ∈ exitPresets.map Prod.fst) ∧
        ∃ id, ids.mapM presetById = .error (.search (.raised (.keyError id)))) := by
  induction ids with
  | nil => exact .inl ⟨by simp, [], rfl, by simp⟩
  | cons id ids ih =>
    rw [List.mapM_cons, List.forall_mem_cons]
    obtain ⟨hid, preset, hpreset, hok⟩ | ⟨hid, herror⟩ := presetById_cases id
    · rw [hok]
      obtain ⟨hknown, presets, hpresets, hall⟩ | ⟨hunknown, other, herror⟩ := ih
      · refine .inl ⟨⟨hid, hknown⟩, preset :: presets, ?_, ?_⟩
        · exact bind_of_ok rfl (bind_of_ok hpresets rfl)
        · exact List.forall_mem_cons.mpr ⟨hpreset, hall⟩
      · refine .inr ⟨fun h => hunknown h.2, other, ?_⟩
        exact bind_of_ok rfl (bind_eq_error.mpr (.inl herror))
    · exact .inr ⟨fun h => hid h.1, id, bind_eq_error.mpr (.inl herror)⟩

theorem selectedExitPolicyPresets_sound_iff {f : List (String × List String) →
    Except OperatorError Genome} (hf : ∀ presets, (∀ preset ∈ presets, preset ∈ exitPresets) →
      Sound F limits (f presets)) :
    Sound F limits (selectedExitPolicyPresets config.exitPolicyPresetIds >>= f) ↔
      KnownPresets config := by
  unfold KnownPresets
  cases config.exitPolicyPresetIds with
  | none =>
    refine ⟨fun _ ids h => (by cases h), fun _ => ?_⟩
    exact hf exitPresets fun _ h => h
  | some ids =>
    simp only [Option.some.injEq, forall_eq']
    change Sound F limits (ids.mapM presetById >>= f) ↔ _
    obtain ⟨hknown, presets, hpresets, hall⟩ | ⟨hunknown, id, herror⟩ := mapM_presetById ids
    · refine iff_of_true ?_ hknown
      rw [hpresets]
      exact hf presets hall
    · refine iff_of_false ?_ hunknown
      rw [herror]
      rintro (⟨_, h, -⟩ | ⟨_, h, hvalidation⟩)
      · cases h
      · cases h
        cases hvalidation

variable (hvalid : ValidWithin F limits genome)

include hvalid

theorem mutateSwapExitPolicy_sound_iff :
    Sound F limits (mutateSwapExitPolicy draws config genome) ↔ KnownPresets config := by
  refine selectedExitPolicyPresets_sound_iff fun presets hall => ?_
  simp only
  split
  · exact sound_ok hvalid
  next preset hpreset =>
    refine sound_ok (attachExitRulePolicy_valid hvalid (hall preset ?_))
    have hmem := mem_of_choose hpreset
    split at hmem
    · exact hmem
    · exact (List.mem_filter.mp hmem).1

theorem mutateReplaceExitWithPreset_sound_iff :
    Sound F limits (mutateReplaceExitWithPreset draws config genome) ↔ KnownPresets config := by
  refine selectedExitPolicyPresets_sound_iff fun presets hall => ?_
  split
  · exact sound_ok hvalid
  next preset hpreset =>
    exact sound_ok (attachExitRulePolicy_valid hvalid (hall preset (mem_of_choose hpreset)))

theorem mutateAddExitStop_valid : ValidWithin F limits (mutateAddExitStop draws genome) := by
  unfold mutateAddExitStop
  split
  · exact hvalid
  · refine (validWithin_policy_iff hvalid _).mpr ?_
    cases decide (draws.random < 1 / 2)
    · rfl
    · rfl

theorem mutateDropExitPolicy_valid : ValidWithin F limits (mutateDropExitPolicy genome) := by
  unfold mutateDropExitPolicy
  split
  · exact hvalid
  · exact (validWithin_policy_iff hvalid none).mpr rfl

/-- The reference to the parameter of an exit is one that the validator knows and, with a preset, one
of the preset. -/
def ExitParamFits (preset name : String) : Prop :=
  (genomeParamBounds.lookup (genomeExitParamRef name)).isSome = true ∧
    ∀ names, exitPresets.lookup preset = some names → name ∈ presetExitParamNames names

omit [ProbeFloat F] hvalid in
theorem validateExitBinding_ref_iff {preset name : String} :
    validateExitBinding preset (name, .ref (genomeExitParamRef name) false) = .ok () ↔
      ExitParamFits preset name := by
  unfold validateExitBinding ExitParamFits
  simp only [seq_eq_ok, ensure_eq_ok]
  refine and_congr_right fun _ => ?_
  cases exitPresets.lookup preset with
  | none => simp
  | some names => simp

omit [ProbeFloat F] hvalid in
theorem validateExitRulePolicy_eq_ok {preset : Option String} {params : List (String × ParamValue)}
    (hpolicy : genome.exitRulePolicy = some ⟨preset, some params⟩) :
    validateExitRulePolicy genome = .ok () ↔ ∃ id, preset = some id ∧ id ≠ "" ∧
      id ∈ exitPresets.map Prod.fst ++ singleStopPresets ∧ params ≠ [] ∧
      ∀ binding ∈ params, validateExitBinding id binding = .ok () := by
  unfold validateExitRulePolicy
  rw [hpolicy]
  cases preset with
  | none => simp
  | some id =>
    simp only [seq_eq_ok, ensure_eq_ok, forM_eq_ok, Option.some.injEq, exists_eq_left']

omit [ProbeFloat F] hvalid in
theorem nudgeExitTarget_eq_some {preset : Option String} {params : List (String × ParamValue)}
    {name : String} (h : nudgeExitTarget draws genome = some (preset, params, name)) :
    genome.exitRulePolicy = some ⟨preset, some params⟩ ∧ name ∈ params.map Prod.fst := by
  unfold nudgeExitTarget at h
  obtain ⟨policy, hpolicy, h⟩ := Option.bind_eq_some_iff.mp h
  obtain ⟨name', hname, h⟩ := Option.bind_eq_some_iff.mp h
  cases h
  obtain ⟨whole, hwhole, hparams⟩ := Option.bind_eq_some_iff.mp hpolicy
  obtain ⟨params', hparams', rfl⟩ := Option.map_eq_some_iff.mp hparams
  refine ⟨?_, (List.perm_insertionSort _ _).mem_iff.mp (mem_of_choose hname)⟩
  rw [hwhole]
  cases whole
  exact congrArg _ (congrArg _ hparams')

/-- The params with one of them replaced are checked where the new one is. -/
theorem mutateNudgeExitParamRef_valid_iff :
    ValidWithin F limits (mutateNudgeExitParamRef draws genome) ↔
      ∀ preset params name, nudgeExitTarget draws genome = some (some preset, params, name) →
        ExitParamFits preset name := by
  unfold mutateNudgeExitParamRef
  cases htarget : nudgeExitTarget draws genome with
  | none => exact iff_of_true hvalid fun _ _ _ h => (by cases h)
  | some target =>
    obtain ⟨preset, params, name⟩ := target
    obtain ⟨hpolicy, hname⟩ := nudgeExitTarget_eq_some htarget
    obtain ⟨id, rfl, hne, hpreset, hsome, hbindings⟩ := (validateExitRulePolicy_eq_ok hpolicy).mp
      (validateGenome_eq_ok.mp hvalid).2.2.2.2.2.2
    refine (validWithin_policy_iff hvalid _).trans ((validateExitRulePolicy_eq_ok rfl).trans ?_)
    have hassign : ∀ binding ∈ assignKey params name (.ref (genomeExitParamRef name) false),
        binding = (name, .ref (genomeExitParamRef name) false) ∨ binding ∈ params := by
      intro binding hbinding
      rw [assignKey, if_pos hname] at hbinding
      obtain ⟨old, hold, rfl⟩ := List.mem_map.mp hbinding
      split
      · exact .inl rfl
      · exact .inr hold
    have hmem : (name, ParamValue.ref (genomeExitParamRef name) false) ∈
        assignKey params name (.ref (genomeExitParamRef name) false) := by
      obtain ⟨old, hold, heq⟩ := List.mem_map.mp hname
      rw [assignKey, if_pos hname]
      exact List.mem_map.mpr ⟨old, hold, if_pos heq⟩
    constructor
    · rintro ⟨_, heq, -, -, -, hall⟩ _ _ _ ⟨⟩
      cases heq
      exact validateExitBinding_ref_iff.mp (hall _ hmem)
    · intro hfits
      refine ⟨id, rfl, hne, hpreset, List.ne_nil_of_mem hmem, fun binding hbinding => ?_⟩
      obtain rfl | hold := hassign binding hbinding
      · exact validateExitBinding_ref_iff.mpr (hfits id params name rfl)
      · exact hbindings binding hold

end ExitPolicies

/-! ## Mutations -/

section Mutations

variable {F : Type} [ProbeFloat F] {draws : MutationDraws F} {config : MutationConfig}
  {probe : Option (Frame F)} {genome : Genome} {limits : Limits}

/-- What the operator that is drawn must not meet. -/
def MutationSafe (draws : MutationDraws F) (config : MutationConfig) (probe : Option (Frame F))
    (genome : Genome) (limits : Limits) : Prop :=
  match drawnOperator draws config with
  | .nudgeParam => NudgeSafe draws config probe genome limits
  | .swapExitPolicy | .replaceExitWithPreset => KnownPresets config
  | .nudgeExitParamRef => ∀ preset params name,
    nudgeExitTarget draws genome = some (some preset, params, name) → ExitParamFits preset name
  | _ => True

/-- An operator on the exit policy keeps the nodes and the entries. -/
theorem applyOperator_exit {op : MutationOperator} (hop : op.isExit = true) {mutated : Genome}
    (h : applyOperator op draws config probe genome limits = .ok mutated) :
    mutated.nodes = genome.nodes ∧ mutated.entryLong = genome.entryLong ∧
      mutated.entryShort = genome.entryShort := by
  cases op with
  | swapExitPolicy =>
    obtain ⟨presets, -, h⟩ := bind_eq_ok.mp h
    simp only at h
    split at h
    · obtain rfl := Except.ok.inj h
      exact ⟨rfl, rfl, rfl⟩
    · obtain rfl := Except.ok.inj h
      exact ⟨rfl, rfl, rfl⟩
  | replaceExitWithPreset =>
    obtain ⟨presets, -, h⟩ := bind_eq_ok.mp h
    split at h
    · obtain rfl := Except.ok.inj h
      exact ⟨rfl, rfl, rfl⟩
    · obtain rfl := Except.ok.inj h
      exact ⟨rfl, rfl, rfl⟩
  | addExitStop =>
    obtain rfl := Except.ok.inj h
    unfold mutateAddExitStop
    split <;> exact ⟨rfl, rfl, rfl⟩
  | dropExitPolicy =>
    obtain rfl := Except.ok.inj h
    unfold mutateDropExitPolicy
    split <;> exact ⟨rfl, rfl, rfl⟩
  | nudgeExitParamRef =>
    obtain rfl := Except.ok.inj h
    unfold mutateNudgeExitParamRef
    split <;> exact ⟨rfl, rfl, rfl⟩
  | _ => cases hop

theorem mutateGenome_eq : mutateGenome draws config probe genome limits =
    applyOperator (drawnOperator draws config) draws config probe genome limits := by
  unfold mutateGenome
  simp only
  cases hresult : applyOperator (drawnOperator draws config) draws config probe genome limits with
  | error e => rfl
  | ok mutated =>
    cases hexit : (drawnOperator draws config).isExit with
    | true =>
      obtain ⟨-, hentries⟩ := applyOperator_exit hexit hresult
      exact bind_of_ok rfl (bind_of_ok (a := ()) (ensure_eq_ok.mpr hentries) rfl)
    | false => rfl

theorem sound_ok_iff : Sound F limits (.ok genome) ↔ ValidWithin F limits genome :=
  ⟨fun h => h.of_ok rfl, sound_ok⟩

theorem mutateGenome_sound_iff (hvalid : ValidWithin F limits genome) :
    Sound F limits (mutateGenome draws config probe genome limits) ↔
      MutationSafe draws config probe genome limits := by
  rw [mutateGenome_eq]
  unfold MutationSafe
  cases drawnOperator draws config with
  | rewire => exact iff_of_true (mutateRewire_sound hvalid) trivial
  | swapIndicator => exact iff_of_true (mutateSwapIndicator_sound hvalid) trivial
  | nudgeParam => exact mutateNudgeParam_sound_iff hvalid
  | swapExit => exact iff_of_true (mutateSwapExit_sound hvalid) trivial
  | addNode => exact iff_of_true (mutateAddNode_sound hvalid) trivial
  | removeNode => exact iff_of_true (mutateRemoveNode_sound hvalid) trivial
  | swapExitPolicy => exact mutateSwapExitPolicy_sound_iff hvalid
  | addExitStop => exact iff_of_true (sound_ok (mutateAddExitStop_valid hvalid)) trivial
  | replaceExitWithPreset => exact mutateReplaceExitWithPreset_sound_iff hvalid
  | dropExitPolicy => exact iff_of_true (sound_ok (mutateDropExitPolicy_valid hvalid)) trivial
  | nudgeExitParamRef => exact sound_ok_iff.trans (mutateNudgeExitParamRef_valid_iff hvalid)

end Mutations

/-! ## Crossovers -/

section Crossovers

variable {F : Type} [ProbeFloat F] {recipient donor child : Genome} {cutA cutB : GenomeNode}
  {limits : Limits} {draws : CrossoverDraws}

/-- The numbers in the ids are of decimal digits, which alone `int` reads. -/
def DecimalIds (ids : List String) : Prop :=
  ∀ id ∈ ids, ∀ digits, numericSuffix id = some digits → ∀ c ∈ digits, (decimalValue c).isSome = true

theorem intOfDigits_cases (text : List Char) :
    ((∀ c ∈ text, (decimalValue c).isSome = true) ∧ ∃ n, intOfDigits text = .ok n) ∨
      (¬ (∀ c ∈ text, (decimalValue c).isSome = true) ∧ ∃ e, intOfDigits text = .error e) := by
  unfold intOfDigits
  generalize 0 = start
  induction text generalizing start with
  | nil => exact .inl ⟨by simp, start, rfl⟩
  | cons c text ih =>
    rw [List.foldlM_cons, List.forall_mem_cons]
    cases hdigit : decimalValue c with
    | none => exact .inr ⟨by simp, _, rfl⟩
    | some digit =>
      obtain ⟨hall, n, hn⟩ | ⟨hnot, e, he⟩ := ih (10 * start + digit)
      · exact .inl ⟨⟨rfl, hall⟩, n, hn⟩
      · exact .inr ⟨fun h => hnot h.2, e, he⟩

theorem maxNumericNodeSuffix_cases (ids : List String) :
    (DecimalIds ids ∧ ∃ top, maxNumericNodeSuffix ids = .ok top) ∨
      (¬ DecimalIds ids ∧ ∃ e, maxNumericNodeSuffix ids = .error e) := by
  have hsuffix : ∀ digits, digits ∈ ids.filterMap numericSuffix ↔
      ∃ id ∈ ids, numericSuffix id = some digits := fun digits => List.mem_filterMap
  unfold maxNumericNodeSuffix
  cases hmapM : (ids.filterMap numericSuffix).mapM intOfDigits with
  | ok suffixes =>
    refine .inl ⟨fun id hid digits hdigits => ?_, _, rfl⟩
    obtain ⟨n, hn⟩ := exists_ok_of_mapM hmapM ((hsuffix digits).mpr ⟨id, hid, hdigits⟩)
    obtain ⟨h, -⟩ | ⟨-, e, he⟩ := intOfDigits_cases digits
    · exact h
    · rw [hn] at he
      cases he
  | error e =>
    refine .inr ⟨fun hdecimal => ?_, e, rfl⟩
    have hreads : ∀ digits ∈ ids.filterMap numericSuffix, ∃ n, intOfDigits digits = .ok n := by
      intro digits hdigits
      obtain ⟨id, hid, hsome⟩ := (hsuffix digits).mp hdigits
      obtain ⟨-, hn⟩ | ⟨hnot, -⟩ := intOfDigits_cases digits
      · exact hn
      · exact absurd (hdecimal id hid digits hsome) hnot
    obtain ⟨ns, hns⟩ := exists_mapM_ok hreads
    rw [hmapM] at hns
    cases hns

theorem mem_of_getNode {genome : Genome} {id : String} {node : GenomeNode}
    (h : genome.getNode id = .ok node) : node ∈ genome.nodes := by
  unfold Genome.getNode at h
  split at h
  next found hfound => exact Except.ok.inj h ▸ KeyedTables.mem_of_lookup hfound
  · cases h

/-- The nodes of the child have the kinds and the params of nodes of its parents. -/
theorem rewiredChild_nodes {ids : List String}
    (h : rewiredChild recipient donor cutA cutB ids = .ok child) :
    ∀ node ∈ child.nodes, ∃ old, (old ∈ recipient.nodes ∨ old ∈ donor.nodes) ∧
      node.kind = old.kind ∧ node.params = old.params := by
  obtain ⟨top, -, h⟩ := bind_eq_ok.mp h
  obtain ⟨sources, hsources, h⟩ := bind_eq_ok.mp h
  obtain ⟨newRoot, -, h⟩ := bind_eq_ok.mp h
  obtain rfl := pure_eq_ok.mp h
  intro node hnode
  obtain ⟨rewired, hrewired, rfl⟩ := List.mem_map.mp hnode
  obtain hkept | hcopied := List.mem_append.mp hrewired
  · exact ⟨rewired, .inl (List.mem_filter.mp hkept).1, rfl, rfl⟩
  · obtain ⟨source, hsource, rfl⟩ := List.mem_map.mp hcopied
    obtain ⟨id, -, hid⟩ := (mem_of_mapM hsources).mp hsource
    exact ⟨source, .inr (mem_of_getNode hid), rfl, rfl⟩

variable (F limits) in
theorem subtreeCrossover_eq (hA : cutA ∈ recipient.nodes)
    (hsize : 1 < (subtreeNodeIds donor cutB.id).length) :
    ∃ fuel, subtreeCrossover F recipient donor cutA cutB limits =
      subtreeRounds F recipient donor cutA cutB limits (fuel + 1) (subtreeNodeIds donor cutB.id) := by
  have hid : cutA.id ∈ recipient.ids := List.mem_map_of_mem hA
  obtain ⟨n, hn⟩ := Nat.exists_eq_add_of_lt hsize
  refine ⟨1 + n, ?_⟩
  unfold subtreeCrossover
  rw [if_neg (not_not.mpr hid)]
  simp only
  rw [if_neg (by omega), hn]

variable (hrecipient : ValidWithin F limits recipient) (hdonor : ValidWithin F limits donor)

include hrecipient hdonor

theorem subtreeCrossover_sound (hA : cutA ∈ recipient.nodes) (hB : cutB ∈ donor.nodes)
    (hsize : 1 < (subtreeNodeIds donor cutB.id).length)
    (hdecimal : DecimalIds (existingIds recipient cutA.id)) :
    Sound F limits (subtreeCrossover F recipient donor cutA cutB limits) := by
  obtain ⟨-, top, htop⟩ | ⟨hnot, -⟩ := maxNumericNodeSuffix_cases (existingIds recipient cutA.id)
  · obtain ⟨child, hchild⟩ := exists_rewiredChild hB htop
    have hclips : ∀ node ∈ (pruneUnreachableNodes child).nodes, ¬ node.ClashingClip := by
      intro node hnode
      obtain ⟨old, hold, hkind, hparams⟩ := rewiredChild_nodes hchild node (List.mem_filter.mp hnode).1
      rw [clashingClip_congr hkind hparams]
      exact hold.elim (hrecipient.not_clashingClip old) (hdonor.not_clashingClip old)
    obtain ⟨fuel, hrounds⟩ := subtreeCrossover_eq F limits hA hsize
    rw [hrounds, subtreeRounds, hchild]
    refine (guarded_ok (P := fun c => c = child) rfl).bind fun c _ hc => ?_
    subst hc
    split
    next hok => exact sound_ok hok
    next e herror =>
      have hcaught : e ≠ .typeError := by
        rintro rfl
        obtain ⟨node, hnode, hclash⟩ := validateGenome_typeError herror
        exact hclips node hnode hclash
      simp only
      rw [if_pos (.inr (.inr (pruneSubtreeLeaves_eq donor cutB.id)))]
      exact .inr ⟨_, rfl, decide_eq_true hcaught⟩
  · exact absurd hdecimal hnot

variable (F limits) in
omit hrecipient hdonor in
theorem subtreeCrossover_raises (hA : cutA ∈ recipient.nodes)
    (hsize : 1 < (subtreeNodeIds donor cutB.id).length)
    (hdecimal : ¬ DecimalIds (existingIds recipient cutA.id)) :
    ∃ e, subtreeCrossover F recipient donor cutA cutB limits = .error (.search (.raised e)) := by
  obtain ⟨h, -⟩ | ⟨-, e, he⟩ := maxNumericNodeSuffix_cases (existingIds recipient cutA.id)
  · exact absurd h hdecimal
  · obtain ⟨fuel, hrounds⟩ := subtreeCrossover_eq F limits hA hsize
    have hchild : rewiredChild recipient donor cutA cutB (subtreeNodeIds donor cutB.id) = .error e :=
      bind_eq_error.mpr (.inl he)
    refine ⟨e, ?_⟩
    rw [hrounds, subtreeRounds, hchild]
    rfl

theorem singleNodeCrossover_sound (hB : cutB ∈ donor.nodes) :
    Sound F limits (singleNodeCrossover F recipient cutA cutB limits) := by
  refine validated_sound (not_clashingClip_change hrecipient.not_clashingClip fun node _ _ => ?_)
  exact (clashingClip_congr rfl rfl).not.mpr (hdonor.not_clashingClip cutB hB)

/-- Where a subtree is grafted, the ids that it is numbered on from must be decimal. -/
def CrossoverSafe (draws : CrossoverDraws) (recipient donor : Genome) : Prop :=
  ∀ cutA, choose draws.cutA (cuttableNodes recipient) = some cutA →
    multiNodeCuts donor (compatibleCutNodes cutA (cuttableNodes donor)) ≠ [] →
    DecimalIds (existingIds recipient cutA.id)

theorem crossoverGenomes_sound_iff :
    Sound F limits (crossoverGenomes F draws recipient donor limits) ↔
      CrossoverSafe draws recipient donor := by
  unfold crossoverGenomes CrossoverSafe
  cases hcutA : choose draws.cutA (cuttableNodes recipient) with
  | none => exact iff_of_true (sound_ok hrecipient) fun _ h => (by cases h)
  | some cutA =>
    simp only [Option.some.injEq, forall_eq']
    have hA := (List.mem_filter.mp (mem_of_choose hcutA)).1
    have hcompatible : ∀ node ∈ compatibleCutNodes cutA (cuttableNodes donor),
        node ∈ donor.nodes := fun node hnode =>
      (List.mem_filter.mp (List.mem_filter.mp hnode).1).1
    cases hsingle : choose draws.single (compatibleCutNodes cutA (cuttableNodes donor)) with
    | none =>
      refine iff_of_true (sound_ok hrecipient) fun hne => (hne ?_).elim
      rw [choose_eq_none.mp hsingle]
      rfl
    | some single =>
      have hfallback : Sound F limits (singleNodeCrossover F recipient cutA single limits) :=
        singleNodeCrossover_sound hrecipient hdonor (hcompatible single (mem_of_choose hsingle))
      cases hcutB : choose draws.cutB
          (multiNodeCuts donor (compatibleCutNodes cutA (cuttableNodes donor))) with
      | none => exact iff_of_true hfallback fun hne => absurd (choose_eq_none.mp hcutB) hne
      | some cutB =>
        obtain ⟨hmem, hlarge⟩ := List.mem_filter.mp (mem_of_choose hcutB)
        have hsize := of_decide_eq_true hlarge
        have hne := List.ne_nil_of_mem (mem_of_choose hcutB)
        simp only
        by_cases hdecimal : DecimalIds (existingIds recipient cutA.id)
        · refine iff_of_true ?_ fun _ => hdecimal
          obtain ⟨child, hchild, hok⟩ | ⟨e, he, hvalidation⟩ :=
            subtreeCrossover_sound hrecipient hdonor hA (hcompatible cutB hmem) hsize hdecimal
          · rw [hchild]
            exact sound_ok hok
          · rw [he]
            simp only [hvalidation, if_true]
            exact hfallback
        · refine iff_of_false ?_ fun h => hdecimal (h hne)
          obtain ⟨e, he⟩ := subtreeCrossover_raises F limits hA hsize hdecimal
          rw [he]
          rintro (⟨_, h, -⟩ | ⟨_, h, hvalidation⟩)
          · cases h
          · cases h
            cases hvalidation

end Crossovers

/-! ## Operators -/

/-- A mutation of a valid genome, and a crossover of two, gives a valid genome or raises a
`GenomeValidationError` exactly when the choices that are drawn avoid what is left unchecked; the
operators on the exit policy keep the nodes and the entries. -/
theorem operators_sound_iff {F : Type} [ProbeFloat F] (draws : MutationDraws F)
    (crossing : CrossoverDraws) (config : MutationConfig) (probe : Option (Frame F))
    {genome other : Genome} {limits : Limits} (hvalid : ValidWithin F limits genome)
    (hother : ValidWithin F limits other) :
    (Sound F limits (mutateGenome draws config probe genome limits) ↔
        MutationSafe draws config probe genome limits) ∧
      (Sound F limits (crossoverGenomes F crossing genome other limits) ↔
        CrossoverSafe crossing genome other) ∧
      ∀ mutated, (drawnOperator draws config).isExit = true →
        mutateGenome draws config probe genome limits = .ok mutated →
        mutated.nodes = genome.nodes ∧ mutated.entryLong = genome.entryLong ∧
          mutated.entryShort = genome.entryShort := by
  refine ⟨mutateGenome_sound_iff hvalid, crossoverGenomes_sound_iff hvalid hother, ?_⟩
  intro mutated hexit hmutated
  rw [mutateGenome_eq] at hmutated
  exact applyOperator_exit hexit hmutated

/-- Draws with which the last of the operators is taken. -/
def lastOperatorDraws : MutationDraws ProbePrice where
  weighted := 21 / 22
  operator := 0
  node := 0
  other := 0
  index := 0
  kind := 0
  key := 0
  value := 0
  latent := 0
  random := 0
  preset := 0
  repair := probeDraws

theorem operators_sound_iff_close :
    (Sound ProbePrice probeLimits (mutateGenome lastOperatorDraws {} (some probeFrame)
          (crossingGenome closeNode "close") probeLimits) ↔
        MutationSafe lastOperatorDraws {} (some probeFrame) (crossingGenome closeNode "close")
          probeLimits) ∧
      (Sound ProbePrice probeLimits (crossoverGenomes ProbePrice ⟨0, 0, 0⟩
          (crossingGenome closeNode "close") (crossingGenome closeNode "close") probeLimits) ↔
        CrossoverSafe ⟨0, 0, 0⟩ (crossingGenome closeNode "close")
          (crossingGenome closeNode "close")) ∧
      ∀ mutated, (drawnOperator lastOperatorDraws {}).isExit = true →
        mutateGenome lastOperatorDraws {} (some probeFrame) (crossingGenome closeNode "close")
          probeLimits = .ok mutated →
        mutated.nodes = (crossingGenome closeNode "close").nodes ∧
          mutated.entryLong = (crossingGenome closeNode "close").entryLong ∧
          mutated.entryShort = (crossingGenome closeNode "close").entryShort :=
  operators_sound_iff lastOperatorDraws ⟨0, 0, 0⟩ {} (some probeFrame)
    (toBool_eq_true.mp (by decide +kernel)) (toBool_eq_true.mp (by decide +kernel))

/-- A percentage bracket with a stop by volatility beside it, as a literal. -/
def bracketGenome : Genome :=
  { crossingGenome closeNode "close" with
    exitRulePolicy := some ⟨some "fixed_pct_bracket", some [("stop_loss_atr", .lit (.int 2))]⟩ }

/-- The literal of a parameter outside the preset is made a reference, which is refused. -/
theorem bracket_nudged_invalid :
    ValidWithin ProbePrice probeLimits bracketGenome ∧
      drawnOperator lastOperatorDraws {} = .nudgeExitParamRef ∧
      ¬ Sound ProbePrice probeLimits
        (mutateGenome lastOperatorDraws {} none bracketGenome probeLimits) := by
  refine ⟨toBool_eq_true.mp (by decide +kernel), by decide +kernel, fun hsound => ?_⟩
  have hinvalid : (mutateGenome lastOperatorDraws {} none bracketGenome
      probeLimits).toOption.any (fun mutated => (validateGenome ProbePrice mutated
        probeLimits.maxDepth probeLimits.maxNodes).toBool) = false := by decide +kernel
  have hreturns : (mutateGenome lastOperatorDraws {} none bracketGenome
      probeLimits).toOption.isSome = true := by decide +kernel
  obtain ⟨mutated, hmutated⟩ := exists_ok_of_isSome hreturns
  rw [hmutated] at hinvalid
  have hok : validateGenome ProbePrice mutated probeLimits.maxDepth probeLimits.maxNodes = .ok () :=
    hsound.of_ok hmutated
  simp [Except.toOption, hok, Except.toBool] at hinvalid

end QBackend.GenomeDsl
