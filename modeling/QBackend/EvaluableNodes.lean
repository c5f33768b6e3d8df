import QBackend.GenomeRequirements

/-!
# Nodes that are evaluated without an exception

The columns that a node writes have a value for each row of the frame, and a node with as many inputs
as its kind takes is evaluated just when its requirements are met.
-/

namespace QBackend.GenomeDsl

open CausalSeries PriceFloat FallibleSteps

variable {F : Type} [PriceFloat F]

/-! ## The length of what is written -/

/-- Each column has the given length. -/
def Sized (n : ℕ) (outputs : Outputs F) : Prop := ∀ output ∈ outputs, output.2.length = n

section Sizes

variable {n : ℕ}

omit [PriceFloat F] in
theorem sized_out {xs : List F} (h : xs.length = n) : Sized n (out xs) := by
  intro output houtput
  rw [List.mem_singleton.mp houtput]
  exact h

omit [PriceFloat F] in
theorem sized_outBools {bs : List Bool} (h : bs.length = n) : Sized n (outBools bs : Outputs F) := by
  intro output houtput
  rw [List.mem_singleton.mp houtput]
  exact (List.length_map _).trans h

omit [PriceFloat F] in
theorem sized_cons {port : String} {column : Column F} {outputs : Outputs F}
    (h : column.length = n) (hs : Sized n outputs) : Sized n ((port, column) :: outputs) := by
  intro output houtput
  obtain rfl | houtput := List.mem_cons.mp houtput
  · exact h
  · exact hs output houtput

omit [PriceFloat F] in
theorem sized_nil : Sized n ([] : Outputs F) := fun _ h => by cases h

omit [PriceFloat F] in
theorem returns_out {x : Except Failure (List F)} (h : Returns x fun xs => xs.length = n) :
    Returns (x >>= fun xs => pure (out xs)) (Sized n) :=
  returns_seq h fun _ hx => returns_pure (sized_out hx)

variable {inputs : List (Column F)} (hinputs : ∀ column ∈ inputs, column.length = n)

include hinputs

omit [PriceFloat F] in
theorem input_length (index : ℕ) : Returns (input inputs index) fun column => column.length = n := by
  unfold input
  cases hget : inputs[index]? with
  | none => exact returns_error
  | some column => exact returns_ok (hinputs column (List.mem_of_getElem? hget))

theorem series_length (index : ℕ) : Returns (series inputs index) fun xs => xs.length = n :=
  returns_seq (input_length hinputs index) fun column h =>
    returns_pure (column.length_values.trans h)

end Sizes

section Evaluation

variable (frame : Frame F)

theorem length_column (f : Row F → F) : (frame.column f).length = frame.rows.length :=
  List.length_map f

theorem length_mapSessions (values : List F) :
    (mapSessions frame.rows values).length = frame.rows.length := List.length_map _

theorem evaluateExog_sized (kind : NodeKind) (params : Params) :
    Returns (evaluateExog frame kind params) (Sized frame.rows.length) := by
  have hcolumn : ∀ symbol suffix, Returns (resolveExogColumn frame symbol suffix) fun xs =>
      xs.length = frame.rows.length := by
    intro symbol suffix
    unfold resolveExogColumn
    dsimp only
    split
    · exact returns_ok (length_column frame _)
    · exact returns_error
  have hbools : ∀ symbol suffix, Returns (resolveExogColumn frame symbol suffix >>= fun xs =>
      pure (outBools (astypeBool xs))) (Sized (F := F) frame.rows.length) := fun symbol suffix =>
    returns_seq (hcolumn symbol suffix) fun xs hx =>
      returns_pure (sized_outBools ((List.length_map _).trans hx))
  unfold evaluateExog
  split
  · exact returns_bind fun _ => returns_bind fun _ => returns_out (hcolumn _ _)
  · exact returns_bind fun _ => returns_bind fun _ => returns_bind fun _ =>
      returns_out (hcolumn _ _)
  · exact returns_bind fun _ => returns_bind fun _ => returns_out (hcolumn _ _)
  · exact returns_bind fun _ => returns_bind fun _ => returns_out (hcolumn _ _)
  · exact returns_bind fun _ => returns_bind fun _ => hbools _ _
  · exact returns_bind fun _ => returns_bind fun _ => hbools _ _
  · exact returns_bind fun _ => returns_out (hcolumn _ _)

theorem estimateVolatility_length {source : List F} (hx : source.length = frame.rows.length)
    (estimator : String) (window : ℤ) :
    Returns (estimateVolatility frame source estimator window) fun ys =>
      ys.length = frame.rows.length := by
  unfold estimateVolatility
  split
  · exact computeYangZhang_length (length_column frame _) (length_column frame _)
      (length_column frame _) (length_column frame _)
  · exact computeRealizedVol_length hx

theorem evaluateTsmom_sized (params : Params) :
    Returns (evaluateTsmom frame params) (Sized frame.rows.length) := by
  unfold evaluateTsmom
  refine returns_bind fun lookback => returns_bind fun rebalanceBars => returns_bind fun window =>
    returns_bind fun estimator => ?_
  have hclose := length_column frame Row.close
  have hmomentum := length_relativeChange lookback hclose
  refine returns_seq (estimateVolatility_length frame hclose estimator window) fun volatility hvol => ?_
  have hentries := (length_scan (tsmomStep rebalanceBars) (0, ofRat 0) _).trans hmomentum
  exact returns_pure (sized_cons hmomentum (sized_cons hvol
    (sized_cons ((List.length_map _).trans hentries)
      (sized_cons ((List.length_map _).trans hentries) sized_nil))))

/-- The encoder gives a value for each row. -/
def Latents.Aligned (latents : Latents F) (n : ℕ) : Prop :=
  ∀ column ∈ latents.columns, column.length = n

theorem evaluateLatent_sized {latents : Option (Latents F)}
    (hlatents : ∀ l ∈ latents, l.Aligned frame.rows.length) (params : Params) :
    Returns (evaluateLatent frame latents params) (Sized frame.rows.length) := by
  unfold evaluateLatent
  cases latents with
  | none => exact returns_ok (sized_out (List.length_map _))
  | some latents =>
    refine returns_bind fun index => ?_
    split
    next column hget =>
      have hlength := hlatents latents rfl column (List.mem_of_getElem? hget)
      refine returns_pure (sized_out ?_)
      simp only [applyWarmup, List.length_append, List.length_replicate, List.length_drop]
      omega
    · exact returns_error

variable {inputs : List (Column F)}
  (hinputs : ∀ column ∈ inputs, column.length = frame.rows.length)

include hinputs

theorem evaluateTrendBlend_sized (params : Params) :
    Returns (evaluateTrendBlend params inputs) (Sized frame.rows.length) := by
  unfold evaluateTrendBlend
  refine returns_seq (series_length hinputs 0) fun source hx => ?_
  refine returns_bind fun lookback₁ => returns_bind fun lookback₂ => returns_bind fun lookback₃ =>
    returns_bind fun window => ?_
  have hsigns : ∀ lookback, ((relativeChange lookback source).map signOrNaN).length =
      frame.rows.length :=
    fun lookback => (List.length_map _).trans (length_relativeChange lookback hx)
  refine returns_seq (computeRealizedVol_length hx) fun volatility hvol => returns_pure ?_
  exact sized_cons (length_zipWith (length_zipWith (hsigns _) (hsigns _)) (hsigns _))
    (sized_cons hvol sized_nil)

theorem evaluateIndicator_sized {latents : Option (Latents F)}
    (hlatents : ∀ l ∈ latents, l.Aligned frame.rows.length) (kind : NodeKind) (params : Params) :
    Returns (evaluateIndicator frame latents kind params inputs) (Sized frame.rows.length) := by
  have hcolumn := length_column frame
  unfold evaluateIndicator
  split
  case h_1 => exact returns_seq (series_length hinputs 0) fun _ hx => returns_bind fun _ =>
      returns_bind fun _ => returns_bind fun _ => returns_out (computeMa_length hx)
  case h_2 => exact returns_seq (series_length hinputs 0) fun _ hx => returns_bind fun _ =>
      returns_out (computeMa_length hx)
  case h_3 => exact returns_seq (series_length hinputs 0) fun _ hx => returns_bind fun _ =>
      returns_out (computeRsi_length hx)
  case h_4 => exact returns_bind fun _ =>
      returns_out (computeAtr_length (hcolumn _) (hcolumn _) (hcolumn _))
  case h_5 =>
    refine returns_seq (series_length hinputs 0) fun _ hx => returns_bind fun _ =>
      returns_bind fun _ => returns_bind fun _ => ?_
    exact returns_seq (computeMacd_length hx) fun macd h =>
      returns_pure (sized_cons h.1 (sized_cons h.2.1 (sized_cons h.2.2 sized_nil)))
  case h_6 =>
    refine returns_seq (series_length hinputs 0) fun _ hx => returns_bind fun _ =>
      returns_bind fun _ => ?_
    exact returns_seq (computeBollingerBands_length hx) fun bands h =>
      returns_pure (sized_cons h.1 (sized_cons h.2.1 (sized_cons h.2.2 sized_nil)))
  case h_7 =>
    refine returns_bind fun _ => ?_
    exact returns_seq (computeDonchianChannels_length (hcolumn _) (hcolumn _)) fun channel h =>
      returns_pure (sized_cons h.1 (sized_cons h.2 sized_nil))
  case h_8 => exact returns_seq (series_length hinputs 0) fun _ hx => returns_bind fun _ =>
      returns_pure (sized_out (length_relativeChange _ hx))
  case h_9 => exact returns_seq (series_length hinputs 0) fun _ hx => returns_bind fun _ =>
      returns_out (estimateVolatility_length frame hx _ _)
  case h_10 => exact returns_seq (series_length hinputs 0) fun _ hx =>
      returns_seq (series_length hinputs 1) fun _ hy =>
        returns_pure (sized_out (length_zipWith hx hy))
  case h_11 => exact returns_seq (series_length hinputs 0) fun _ hx =>
      returns_seq (series_length hinputs 1) fun _ hy =>
        returns_pure (sized_out (length_zipWith hx hy))
  case h_12 =>
    refine returns_seq (series_length hinputs 0) fun _ hx => returns_bind fun _ =>
      returns_bind fun _ => ?_
    exact returns_seq (computeTrbChannel_length hx) fun channel h => returns_pure
      (sized_cons h.1 (sized_cons h.2.1 (sized_cons h.2.2.1 (sized_cons h.2.2.2 sized_nil))))
  case h_13 =>
    refine returns_seq (series_length hinputs 0) fun _ hx => returns_bind fun _ => ?_
    exact returns_pure (sized_cons ((List.length_map _).trans hx)
      (sized_cons ((List.length_map _).trans hx) sized_nil))
  case h_14 => exact evaluateTsmom_sized frame params
  case h_15 => exact evaluateTrendBlend_sized frame hinputs params
  case h_16 => exact evaluateLatent_sized frame hlatents params

theorem evaluateTransform_sized (kind : NodeKind) (params : Params) :
    Returns (evaluateTransform kind params inputs) (Sized frame.rows.length) := by
  unfold evaluateTransform
  split
  case h_1 =>
    refine returns_seq (input_length hinputs 0) fun source hx => returns_bind fun bars => ?_
    refine returns_pure (sized_cons ?_ sized_nil)
    cases source with
    | numbers xs => exact (length_shift _ _ xs).trans hx
    | bools bs => exact (length_shift _ _ bs).trans hx
  case h_2 =>
    refine returns_seq (input_length hinputs 0) fun source hx => ?_
    refine returns_pure (sized_cons ?_ sized_nil)
    cases source with
    | numbers xs => exact (List.length_map _).trans hx
    | bools bs => exact hx
  case h_3 => exact returns_seq (series_length hinputs 0) fun _ hx => returns_bind fun _ =>
      returns_pure (sized_out ((List.length_map _).trans hx))
  case h_4 => exact returns_seq (series_length hinputs 0) fun _ hx => returns_bind fun _ =>
      returns_out (computeRollingZscore_length hx)
  case h_5 => exact returns_seq (series_length hinputs 0) fun _ hx => returns_bind fun _ =>
      returns_out (computeRollingRank_length hx)
  case h_6 => exact returns_seq (series_length hinputs 0) fun _ hx => returns_bind fun _ =>
      returns_out (computePctChange_length hx)
  case h_7 => exact returns_seq (series_length hinputs 0) fun _ hx => returns_bind fun _ =>
      returns_bind fun _ => returns_out (computeClip_length hx)

theorem evaluateFeatureNode_sized (kind : NodeKind) (params : Params) :
    Returns (evaluateFeatureNode frame kind params inputs) (Sized frame.rows.length) := by
  have hcolumn := length_column frame
  have hsessions : ∀ agg, (mapPreviousSession frame agg).length = frame.rows.length :=
    fun agg => length_mapSessions frame _
  have hdistance : ∀ agg, Returns (evaluateSessionDistance frame params agg)
      (Sized frame.rows.length) := fun agg => returns_bind fun _ =>
    returns_out (computeDistanceAtr_length (hcolumn _) (hsessions agg) (hcolumn _) (hcolumn _))
  have hrange : Returns (evaluateOpeningRange frame params) fun levels =>
      levels.1.length = frame.rows.length ∧ levels.2.length = frame.rows.length :=
    returns_bind fun _ => returns_bind fun _ => returns_bind fun _ =>
      returns_pure ⟨List.length_map _, List.length_map _⟩
  have hrows : ∀ f : Row F → F, (frame.rows.map f).length = frame.rows.length :=
    fun f => List.length_map f
  unfold evaluateFeatureNode
  split
  case h_1 => exact returns_bind fun _ => returns_out (returns_bind fun _ => returns_pure (hrows _))
  case h_2 =>
    refine returns_bind fun _ => returns_bind fun _ => returns_out ?_
    refine returns_bind fun _ => returns_bind fun _ => ?_
    split
    · exact returns_error
    · exact returns_pure (hrows _)
  case h_3 => exact returns_pure (sized_out (hrows _))
  case h_4 => exact returns_pure (sized_out (hrows _))
  case h_5 =>
    refine returns_bind fun windowFrom => returns_bind fun windowTo => ?_
    have hwindow : Returns (computeSessionWindow frame windowFrom windowTo) fun bs =>
        bs.length = frame.rows.length := by
      refine returns_bind fun _ => returns_bind fun _ => ?_
      split
      · exact returns_error
      · exact returns_pure (List.length_map _)
    exact returns_seq hwindow fun _ hb => returns_pure (sized_outBools hb)
  case h_6 => exact returns_seq (series_length hinputs 0) fun _ hx => returns_bind fun _ =>
      returns_bind fun _ => returns_out (computeVolRegime_length hx)
  case h_7 => exact returns_seq (series_length hinputs 0) fun _ hx => returns_bind fun _ =>
      returns_out (computeTrendRegime_length hx)
  case h_8 => exact returns_seq (series_length hinputs 0) fun _ hx => returns_bind fun _ =>
      returns_bind fun _ => returns_out (computeRangeCompression_length (hcolumn _) (hcolumn _) hx)
  case h_9 => exact returns_pure (sized_out (hsessions _))
  case h_10 => exact returns_pure (sized_out (hsessions _))
  case h_11 => exact returns_pure (sized_out (hsessions _))
  case h_12 => exact returns_pure (sized_out (hsessions _))
  case h_13 => exact returns_pure (sized_out (hsessions _))
  case h_14 => exact returns_pure (sized_out (hsessions _))
  case h_15 => exact returns_pure (sized_out (length_mapSessions frame _))
  case h_16 => exact returns_pure (sized_out (length_mapSessions frame _))
  case h_17 => exact returns_out (returns_bind fun _ => returns_pure (length_mapSessions frame _))
  case h_18 => exact hdistance _
  case h_19 => exact hdistance _
  case h_20 => exact hdistance _
  case h_21 => exact returns_seq hrange fun _ h => returns_pure (sized_out h.1)
  case h_22 => exact returns_seq hrange fun _ h => returns_pure (sized_out h.2)

omit frame hinputs in
theorem length_crossing {n : ℕ} {now before : F → F → Bool} {left right : List F}
    (hl : left.length = n) (hr : right.length = n) :
    (crossing now before left right).length = n :=
  length_zipWith (length_zipWith hl hr) (length_zipWith (length_previous hl) (length_previous hr))

theorem evaluateTouch_sized (now before : F → F → Bool) :
    Returns (evaluateTouch now before inputs) (Sized frame.rows.length) :=
  returns_seq (series_length hinputs 0) fun _ hx => returns_seq (series_length hinputs 1)
    fun _ hy => returns_pure (sized_outBools (length_crossing hx hy))

theorem evaluateCross_sized (now before : F → F → Bool) (params : Params) :
    Returns (evaluateCross now before params inputs) (Sized frame.rows.length) := by
  unfold evaluateCross
  split
  · exact returns_seq (series_length hinputs 0) fun _ hx => returns_bind fun _ =>
      returns_pure (sized_outBools (length_zipWith hx (length_previous hx)))
  · exact evaluateTouch_sized frame hinputs now before

theorem evaluateComparison_sized (compare : F → F → Bool) :
    Returns (evaluateComparison compare inputs) (Sized frame.rows.length) :=
  returns_seq (series_length hinputs 0) fun _ hx => returns_seq (series_length hinputs 1)
    fun _ hy => returns_pure (sized_outBools (length_zipWith hx hy))

theorem evaluateBreakout_sized (now before : F → F → Bool) :
    Returns (evaluateBreakout now before inputs) (Sized frame.rows.length) :=
  returns_seq (series_length hinputs 0) fun _ hx => returns_seq (series_length hinputs 1)
    fun _ hy => returns_seq (series_length hinputs 2) fun _ hz => returns_pure
      (sized_outBools (length_zipWith (length_zipWith (length_previous hx) hz)
        (length_zipWith hx hy)))

theorem evaluateLogic_sized (op : Bool → Bool → Bool) :
    Returns (evaluateLogic op inputs) (Sized frame.rows.length) :=
  returns_seq (input_length hinputs 0) fun left hl => returns_seq (input_length hinputs 1)
    fun right hr => returns_pure (sized_cons
      (length_zipWith (left.length_flags.trans hl) (right.length_flags.trans hr)) sized_nil)

theorem evaluateBoolNode_sized (kind : NodeKind) (params : Params) :
    Returns (evaluateBoolNode kind params inputs) (Sized frame.rows.length) := by
  unfold evaluateBoolNode
  split
  case h_1 => exact evaluateLogic_sized frame hinputs _
  case h_2 => exact evaluateLogic_sized frame hinputs _
  case h_3 =>
    refine returns_seq (input_length hinputs 0) fun source hx => returns_pure (sized_outBools ?_)
    exact (List.length_map _).trans ((List.length_map _).trans (source.length_flags.trans hx))
  case h_4 => exact evaluateComparison_sized frame hinputs _
  case h_5 => exact evaluateComparison_sized frame hinputs _
  case h_6 => exact evaluateComparison_sized frame hinputs _
  case h_7 => exact evaluateComparison_sized frame hinputs _
  case h_8 => exact evaluateCross_sized frame hinputs _ _ params
  case h_9 => exact evaluateCross_sized frame hinputs _ _ params
  case h_10 => exact evaluateTouch_sized frame hinputs _ _
  case h_11 => exact evaluateTouch_sized frame hinputs _ _
  case h_12 => exact evaluateBreakout_sized frame hinputs _ _
  case h_13 => exact evaluateBreakout_sized frame hinputs _ _

theorem evaluateMiddleBand_sized :
    Returns (evaluateMiddleBand inputs) (Sized frame.rows.length) := by
  refine returns_seq (series_length hinputs 0) fun close hx => ?_
  refine returns_seq (series_length hinputs 1) fun middle hy => returns_pure ?_
  exact sized_cons ((List.length_map _).trans (length_crossing hx hy))
    (sized_cons ((List.length_map _).trans (length_crossing hx hy)) sized_nil)

/-- A node writes columns with a value for each row. -/
theorem evaluateKind_sized {latents : Option (Latents F)}
    (hlatents : ∀ l ∈ latents, l.Aligned frame.rows.length) (kind : NodeKind) (params : Params) :
    Returns (evaluateKind frame latents kind params inputs) (Sized frame.rows.length) := by
  have hcolumn := length_column frame
  unfold evaluateKind
  split
  · exact returns_ok (sized_out (hcolumn _))
  · exact returns_ok (sized_out (hcolumn _))
  · exact returns_ok (sized_out (hcolumn _))
  · exact returns_ok (sized_out (hcolumn _))
  · exact returns_ok (sized_out (hcolumn _))
  · exact evaluateMiddleBand_sized frame hinputs
  · split
    · exact evaluateExog_sized frame _ params
    · exact evaluateIndicator_sized frame hinputs hlatents _ params
    · exact evaluateTransform_sized frame hinputs _ params
    · exact evaluateFeatureNode_sized frame hinputs _ params
    · exact evaluateBoolNode_sized frame hinputs _ params
    · exact evaluateBoolNode_sized frame hinputs _ params
    · exact returns_ok sized_nil

end Evaluation

/-! ## Steps that look a parameter up -/

section Lookups

variable {α : Type} {params : Params} {key : String}

theorem int_iff {f : ℤ → Except Failure α} {P : ℤ → Prop} (h : ∀ k, Succeeds (f k) ↔ P k) :
    Succeeds (intParam params key >>= f) ↔ HasInt params key P :=
  succeeds_bind.trans (exists_congr fun k => and_congr_right fun _ => h k)

theorem float_iff {f : F → Except Failure α} {P : F → Prop} (h : ∀ x, Succeeds (f x) ↔ P x) :
    Succeeds (floatParam params key >>= f) ↔ HasFloat F params key P :=
  succeeds_bind.trans (exists_congr fun x => and_congr_right fun _ => h x)

theorem str_iff {f : String → Except Failure α} {P : String → Prop} (h : ∀ s, Succeeds (f s) ↔ P s) :
    Succeeds (strParam F params key >>= f) ↔ HasStr F params key P :=
  succeeds_bind.trans (exists_congr fun s => and_congr_right fun _ => h s)

theorem pure_iff {β : Type} {x : Except Failure α} {g : α → β} :
    Succeeds (x >>= fun a => pure (g a)) ↔ Succeeds x :=
  succeeds_bind_iff fun _ => succeeds_pure

theorem hasInt_and_left {P : Prop} {Q : ℤ → Prop} :
    HasInt params key (fun k => P ∧ Q k) ↔ P ∧ HasInt params key Q := by
  constructor
  · rintro ⟨k, hk, hp, hq⟩
    exact ⟨hp, k, hk, hq⟩
  · rintro ⟨hp, k, hk, hq⟩
    exact ⟨k, hk, hp, hq⟩

theorem hasInt_and_right {P : ℤ → Prop} {Q : Prop} :
    HasInt params key (fun k => P k ∧ Q) ↔ HasInt params key P ∧ Q := by
  constructor
  · rintro ⟨k, hk, hp, hq⟩
    exact ⟨⟨k, hk, hp⟩, hq⟩
  · rintro ⟨⟨k, hk, hp⟩, hq⟩
    exact ⟨k, hk, hp, hq⟩

theorem hasInt_const {P : Prop} :
    HasInt params key (fun _ => P) ↔ HasInt params key (fun _ => True) ∧ P := by
  rw [← hasInt_and_right]
  simp only [true_and]

theorem hasFloat_const {P : Prop} :
    HasFloat F params key (fun _ => P) ↔ P ∧ HasFloat F params key fun _ => True := by
  constructor
  · rintro ⟨x, hx, hp⟩
    exact ⟨hp, x, hx, trivial⟩
  · rintro ⟨hp, x, hx, -⟩
    exact ⟨x, hx, hp⟩

theorem hasStr_and_left {P : Prop} {Q : String → Prop} :
    HasStr F params key (fun s => P ∧ Q s) ↔ P ∧ HasStr F params key Q := by
  constructor
  · rintro ⟨s, hs, hp, hq⟩
    exact ⟨hp, s, hs, hq⟩
  · rintro ⟨hp, s, hs, hq⟩
    exact ⟨s, hs, hp, hq⟩

theorem hasStr_and_right {P : String → Prop} {Q : Prop} :
    HasStr F params key (fun s => P s ∧ Q) ↔ HasStr F params key P ∧ Q := by
  constructor
  · rintro ⟨s, hs, hp, hq⟩
    exact ⟨⟨s, hs, hp⟩, hq⟩
  · rintro ⟨⟨s, hs, hp⟩, hq⟩
    exact ⟨s, hs, hp, hq⟩

end Lookups

/-! ## When evaluation succeeds -/

section Success

variable (frame : Frame F)

theorem resolveExogColumn_succeeds {symbol suffix : String} :
    Succeeds (resolveExogColumn frame symbol suffix) ↔
      exogColumnName symbol suffix ∈ frame.exogColumns := by
  unfold resolveExogColumn
  dsimp only
  split
  next h => simp [h]
  next h => simp [h]

theorem attached_iff {α : Type} {params : Params} {suffix : String} {g : List F → α} :
    Succeeds (strParam F params "symbol" >>= fun symbol =>
      resolveExogColumn frame symbol suffix >>= fun xs => pure (g xs)) ↔
        Attached F frame.exogColumns params suffix :=
  str_iff fun _ => pure_iff.trans (resolveExogColumn_succeeds frame)

theorem estimateVolatility_succeeds {source : List F} {estimator : String} {window : ℤ} :
    Succeeds (estimateVolatility frame source estimator window) ↔
      VolatilityWindow estimator window := by
  unfold estimateVolatility VolatilityWindow
  split
  next h => rw [computeYangZhang_succeeds]; simp [h]
  next h => rw [computeRealizedVol_succeeds]; simp [h]

theorem evaluateLatent_succeeds {latents : Option (Latents F)} {params : Params} :
    Succeeds (evaluateLatent frame latents params) ↔
      latents.all (fun l => !l.columns.isEmpty) ∧
        (latents.isSome → Succeeds ((params.lookup "latent_index").getD (.int 0)).toInt) := by
  unfold evaluateLatent
  cases latents with
  | none => simp
  | some latents =>
    refine (succeeds_bind_of (P := latents.columns.isEmpty = false) fun index _ => ?_).trans ?_
    · cases latents.columns with
      | nil => simp
      | cons column columns =>
        have hlt : min (max 0 index).toNat ((column :: columns).length - 1) <
            (column :: columns).length := by
          simp only [List.length_cons]
          omega
        rw [List.getElem?_eq_getElem hlt]
        simp
    · simp [and_comm]

theorem hhmmBefore_succeeds {α : Type} {start stop message : String} {g : ℤ → ℤ → α} :
    Succeeds (do
      let a ← hhmmToMinutes start
      let b ← hhmmToMinutes stop
      if b ≤ a then .error (.valueError message) else pure (g a b)) ↔ HhmmBefore start stop := by
  rw [succeeds_bind]
  unfold HhmmBefore
  refine exists_congr fun a => ?_
  constructor
  · rintro ⟨ha, hrest⟩
    obtain ⟨b, hb, hlast⟩ := succeeds_bind.mp hrest
    rw [succeeds_ite_error, not_le] at hlast
    exact ⟨b, ha, hb, hlast.1⟩
  · rintro ⟨b, ha, hb, hlt⟩
    refine ⟨ha, succeeds_bind.mpr ⟨b, hb, ?_⟩⟩
    rw [succeeds_ite_error, not_le]
    exact ⟨hlt, succeeds_pure⟩

theorem evaluateExog_succeeds {kind : NodeKind} {params : Params} {count : ℕ}
    {latents : Option (Latents F)} (hfamily : kind.family = .source)
    (hbars : kind ∉ [.sourceClose, .sourceHigh, .sourceLow, .sourceOpen, .sourceVolume]) :
    Succeeds (evaluateExog frame kind params) ↔ Requirements frame latents kind params count := by
  cases kind
  case sourceExogClose => exact attached_iff frame
  case sourceExogReturn => exact int_iff fun _ => attached_iff frame
  case sourceExogReturnZscore => exact int_iff fun _ => int_iff fun _ => attached_iff frame
  case sourceExogRollingCorr => exact int_iff fun _ => attached_iff frame
  case sourceExogRelativeStrength => exact int_iff fun _ => attached_iff frame
  case sourceExogVolRegime => exact int_iff fun _ => attached_iff frame
  case sourceExogDirectionRegime => exact int_iff fun _ => attached_iff frame
  all_goals first | exact absurd (by decide) hbars | cases hfamily

variable {inputs : List (Column F)} {n : ℕ}

theorem exists_series (hinputs : ∀ column ∈ inputs, column.length = n) {index : ℕ}
    (h : index < inputs.length) : ∃ xs, series inputs index = .ok xs ∧ xs.length = n := by
  have hget : inputs[index]? = some inputs[index] := List.getElem?_eq_getElem h
  refine ⟨inputs[index].values, ?_, ?_⟩
  · rw [series, input, hget]
    rfl
  · rw [Column.length_values]
    exact hinputs _ (List.getElem_mem h)

omit [PriceFloat F] in
theorem exists_input {index : ℕ} (h : index < inputs.length) :
    ∃ column, input inputs index = .ok column := by
  refine ⟨inputs[index], ?_⟩
  rw [input, List.getElem?_eq_getElem h]

theorem series_iff {α : Type} {P : Prop} {index : ℕ} {f : List F → Except Failure α}
    (hinputs : ∀ column ∈ inputs, column.length = n) (h : index < inputs.length)
    (hf : ∀ xs, xs.length = n → (Succeeds (f xs) ↔ P)) :
    Succeeds (series inputs index >>= f) ↔ P := by
  obtain ⟨xs, hxs, hlen⟩ := exists_series hinputs h
  rw [hxs]
  exact hf xs hlen

omit [PriceFloat F] in
theorem input_iff {α : Type} {P : Prop} {index : ℕ} {f : Column F → Except Failure α}
    (h : index < inputs.length) (hf : ∀ column, Succeeds (f column) ↔ P) :
    Succeeds (input inputs index >>= f) ↔ P := by
  obtain ⟨column, hcolumn⟩ := exists_input h
  rw [hcolumn]
  exact hf column

omit [PriceFloat F] in
theorem normalizeMaType_succeeds {name : String} :
    Succeeds (normalizeMaType name) ↔ (validMaTypes.lookup (strip name.toLower)).isSome := by
  unfold normalizeMaType
  cases validMaTypes.lookup (strip name.toLower) with
  | none => simp
  | some maType => simp

theorem macdSteps_succeed {α : Type} {params : Params} {xs : List F}
    {g : List F × List F × List F → α} :
    Succeeds (do
      let fast ← intParam params "fast_period"
      let slow ← intParam params "slow_period"
      let signal ← intParam params "signal_period"
      let macd ← computeMacd xs fast slow signal
      pure (g macd)) ↔
    HasInt params "fast_period" (1 ≤ ·) ∧ HasInt params "slow_period" (1 ≤ ·) ∧
      HasInt params "signal_period" (1 ≤ ·) := by
  have hslow : ∀ fast, Succeeds (do
      let slow ← intParam params "slow_period"
      let signal ← intParam params "signal_period"
      let macd ← computeMacd xs fast slow signal
      pure (g macd)) ↔ 1 ≤ fast ∧ HasInt params "slow_period" (1 ≤ ·) ∧
        HasInt params "signal_period" (1 ≤ ·) := by
    intro fast
    rw [int_iff fun slow => int_iff fun signal => pure_iff.trans computeMacd_succeeds]
    simp only [hasInt_and_left, hasInt_and_right]
  exact (int_iff hslow).trans hasInt_and_right

theorem bandSteps_succeed {α β : Type} {params : Params} {key : String}
    {kernel : ℤ → F → Except Failure α} {g : α → β}
    (h : ∀ period width, Succeeds (kernel period width) ↔ 0 ≤ period) :
    Succeeds (do
      let period ← intParam params "period"
      let width ← floatParam params key
      let band ← kernel period width
      pure (g band)) ↔ HasInt params "period" (0 ≤ ·) ∧ HasFloat F params key fun _ => True :=
  (int_iff fun period => (float_iff fun width => pure_iff.trans (h period width)).trans
    hasFloat_const).trans hasInt_and_right

theorem evaluateTsmom_succeeds {params : Params} :
    Succeeds (evaluateTsmom frame params) ↔ HasInt params "lookback_bars" (fun _ => True) ∧
      HasInt params "rebalance_bars" (fun _ => True) ∧ HasInt params "vol_window" fun window =>
        HasStr F params "vol_estimator" fun estimator => VolatilityWindow estimator window :=
  (int_iff fun _ => (int_iff fun _ => int_iff fun _ => str_iff fun _ =>
    pure_iff.trans (estimateVolatility_succeeds frame)).trans hasInt_const).trans hasInt_const

omit frame in
theorem evaluateTrendBlend_succeeds {params : Params}
    (hinputs : ∀ column ∈ inputs, column.length = n) (hcount : 1 ≤ inputs.length) :
    Succeeds (evaluateTrendBlend params inputs) ↔ HasInt params "lookback_1" (fun _ => True) ∧
      HasInt params "lookback_2" (fun _ => True) ∧ HasInt params "lookback_3" (fun _ => True) ∧
      HasInt params "vol_window" (0 ≤ ·) :=
  series_iff hinputs hcount fun _ _ => (int_iff fun _ => (int_iff fun _ => (int_iff fun _ =>
    int_iff fun _ => pure_iff.trans computeRealizedVol_succeeds).trans hasInt_const).trans
      hasInt_const).trans hasInt_const

theorem evaluateIndicator_succeeds {kind : NodeKind} {params : Params} {count : ℕ}
    {latents : Option (Latents F)} (hfamily : kind.family = .ind)
    (hinputs : ∀ column ∈ inputs, column.length = n)
    (hcount : (nodeSpec kind).minInputs ≤ inputs.length) :
    Succeeds (evaluateIndicator frame latents kind params inputs) ↔
      Requirements frame latents kind params count := by
  have hsource : ∀ {P : Prop} {f : List F → Except Failure (Outputs F)}, 1 ≤ inputs.length →
      (∀ xs, xs.length = n → (Succeeds (f xs) ↔ P)) → (Succeeds (series inputs 0 >>= f) ↔ P) :=
    fun h hf => series_iff hinputs h hf
  have hpair : ∀ {f : List F → List F → Except Failure (Outputs F)}, 2 ≤ inputs.length →
      (∀ xs ys, Succeeds (f xs ys)) →
        (Succeeds (series inputs 0 >>= fun xs => series inputs 1 >>= fun ys => f xs ys) ↔ True) :=
    fun h hf => series_iff hinputs (by omega) fun xs _ => series_iff hinputs (by omega)
      fun ys _ => iff_true_intro (hf xs ys)
  cases kind <;> cases hfamily
  case indMa.refl =>
    refine hsource hcount fun xs _ => ?_
    refine (int_iff fun period => (str_iff fun name => ?_).trans hasStr_and_left).trans
      hasInt_and_right
    refine (succeeds_bind_of fun _ _ => pure_iff.trans computeMa_succeeds).trans ?_
    exact and_comm.trans (and_congr_right' normalizeMaType_succeeds)
  case indEma.refl =>
    exact hsource hcount fun xs _ => int_iff fun _ => pure_iff.trans computeMa_succeeds
  case indRsi.refl =>
    exact hsource hcount fun xs _ => int_iff fun _ => pure_iff.trans computeRsi_succeeds
  case indAtr.refl => exact int_iff fun _ => pure_iff.trans computeAtr_succeeds
  case indMacd.refl => exact hsource hcount fun xs _ => macdSteps_succeed
  case indBollinger.refl =>
    exact hsource hcount fun xs _ => bandSteps_succeed fun _ _ => computeBollingerBands_succeeds
  case indDonchian.refl =>
    exact int_iff fun _ => pure_iff.trans computeDonchianChannels_succeeds
  case indMomentum.refl =>
    exact hsource hcount fun xs _ => int_iff fun _ => iff_true_intro succeeds_pure
  case indRealizedVol.refl =>
    exact hsource hcount fun xs _ => int_iff fun _ =>
      pure_iff.trans (estimateVolatility_succeeds frame)
  case indDiff.refl => exact hpair hcount fun _ _ => succeeds_pure
  case indRatio.refl => exact hpair hcount fun _ _ => succeeds_pure
  case indTrbChannel.refl =>
    exact hsource hcount fun xs _ => bandSteps_succeed fun _ _ => computeTrbChannel_succeeds
  case indMaBand.refl =>
    exact hsource hcount fun xs _ => float_iff fun _ => iff_true_intro succeeds_pure
  case indTsmom.refl => exact evaluateTsmom_succeeds frame
  case indTrendBlend.refl => exact evaluateTrendBlend_succeeds hinputs hcount
  case indLatent.refl => exact evaluateLatent_succeeds frame

/-- The kinds that rank a value among those before it, which asks for a frame with rows. -/
def NodeKind.Ranks (kind : NodeKind) : Bool :=
  match kind with
  | .transformRank | .featureVolRegime | .featureRangeCompression => true
  | _ => false

omit frame in
theorem evaluateTransform_succeeds {frame : Frame F} {kind : NodeKind} {params : Params} {count : ℕ}
    {latents : Option (Latents F)} (hfamily : kind.family = .transform)
    (hinputs : ∀ column ∈ inputs, column.length = n) (hrows : kind.Ranks → 0 < n)
    (hcount : (nodeSpec kind).minInputs ≤ inputs.length) :
    Succeeds (evaluateTransform kind params inputs) ↔
      Requirements frame latents kind params count := by
  have hsource : ∀ {P : Prop} {f : List F → Except Failure (Outputs F)}, 1 ≤ inputs.length →
      (∀ xs, xs.length = n → (Succeeds (f xs) ↔ P)) → (Succeeds (series inputs 0 >>= f) ↔ P) :=
    fun h hf => series_iff hinputs h hf
  cases kind <;> cases hfamily
  case transformShift.refl => exact input_iff hcount fun _ => pure_iff
  case transformAbs.refl => exact input_iff hcount fun _ => iff_true_intro succeeds_pure
  case transformScale.refl =>
    exact hsource hcount fun xs _ => float_iff fun _ => iff_true_intro succeeds_pure
  case transformZscore.refl =>
    exact hsource hcount fun xs _ => int_iff fun _ => pure_iff.trans computeRollingZscore_succeeds
  case transformRank.refl =>
    refine hsource hcount fun xs hlen => int_iff fun _ => pure_iff.trans ?_
    have hrows := hrows rfl
    exact computeRollingRank_succeeds (List.ne_nil_of_length_pos (by omega))
  case transformPctChange.refl =>
    exact hsource hcount fun xs _ => int_iff fun _ => pure_iff.trans computePctChange_succeeds
  case transformClip.refl =>
    exact hsource hcount fun xs _ => float_iff fun _ => float_iff fun _ =>
      pure_iff.trans computeClip_succeeds

theorem volRegime_succeeds {xs : List F} {window lookback : ℤ} (h : 0 < xs.length) :
    Succeeds (computeVolRegime xs window lookback) ↔ 0 ≤ window ∧ 1 ≤ lookback := by
  refine (succeeds_bind_of fun vol hvol => ?_).trans (and_congr_left' computeRealizedVol_succeeds)
  have hlen : vol.length = xs.length := computeRealizedVol_length rfl vol hvol
  exact computeRollingRank_succeeds (List.ne_nil_of_length_pos (by omega))

theorem trendRegime_succeeds {xs : List F} {period : ℤ} :
    Succeeds (computeTrendRegime xs period) ↔ 0 ≤ period := by
  unfold computeTrendRegime
  rw [succeeds_bind_of fun _ _ => pure_iff.trans computeRealizedVol_succeeds,
    rollingValue_succeeds, and_self]

theorem rangeCompression_succeeds {high low close : List F} {lookback : ℤ}
    (hh : high.length = n) (hl : low.length = n) (hc : close.length = n) (h : 0 < n) :
    Succeeds (computeRangeCompression high low close lookback) ↔ 1 ≤ lookback := by
  refine (succeeds_bind_of (P := 1 ≤ lookback) fun atr hatr => ?_).trans ?_
  · have hlen : atr.length = n := computeAtr_length hh hl hc atr hatr
    refine computeRollingRank_succeeds (List.ne_nil_of_length_pos ?_)
    rw [length_zipWith (length_zip hh hl) hlen]
    exact h
  · rw [computeAtr_succeeds]
    omega

theorem volRegimeSteps_succeed {α : Type} {params : Params} {xs : List F} {g : List F → α}
    (h : 0 < xs.length) :
    Succeeds (do
      let window ← intParam params "window"
      let lookback ← intParam params "regime_lookback"
      let regime ← computeVolRegime xs window lookback
      pure (g regime)) ↔
    HasInt params "window" (0 ≤ ·) ∧ HasInt params "regime_lookback" (1 ≤ ·) := by
  have hlast : ∀ window lookback, Succeeds (computeVolRegime xs window lookback >>= fun regime =>
      pure (g regime)) ↔ 0 ≤ window ∧ 1 ≤ lookback := by
    intro window lookback
    rw [pure_iff, volRegime_succeeds h]
  rw [int_iff fun window => int_iff fun lookback => hlast window lookback]
  simp only [hasInt_and_left, hasInt_and_right]

theorem rangeCompressionSteps_succeed {α : Type} {params : Params} {high low close : List F}
    {g : List F → α} (hh : high.length = n) (hl : low.length = n) (hc : close.length = n)
    (h : 0 < n) :
    Succeeds (do
      let _ ← intParam params "window"
      let lookback ← intParam params "regime_lookback"
      let regime ← computeRangeCompression high low close lookback
      pure (g regime)) ↔
    HasInt params "window" (fun _ => True) ∧ HasInt params "regime_lookback" (1 ≤ ·) :=
  (int_iff fun _ => int_iff fun _ => pure_iff.trans
    (rangeCompression_succeeds hh hl hc h)).trans hasInt_const

theorem timeOfDay_succeeds {start stop : String} :
    Succeeds (computeTimeOfDay frame start stop) ↔ HhmmBefore start stop :=
  hhmmBefore_succeeds

theorem sessionWindow_succeeds {start stop : String} :
    Succeeds (computeSessionWindow frame start stop) ↔ HhmmBefore start stop :=
  hhmmBefore_succeeds

theorem sessionDistance_succeeds {params : Params} {agg : List (Row F) → F} :
    Succeeds (evaluateSessionDistance frame params agg) ↔ HasInt params "atr_period" (1 ≤ ·) :=
  int_iff fun _ => pure_iff.trans (pure_iff.trans computeAtr_succeeds)

theorem openingRange_succeeds {params : Params} :
    Succeeds (evaluateOpeningRange frame params) ↔
      HasStr F params "session_open" (fun open_ => Succeeds (hhmmToMinutes open_)) ∧
        HasInt params "range_minutes" fun _ => True := by
  refine (str_iff fun sessionOpen => ?_).trans hasStr_and_right
  exact ((int_iff fun _ => pure_iff).trans hasInt_const).trans and_comm

theorem evaluateFeatureNode_succeeds {kind : NodeKind} {params : Params} {count : ℕ}
    {latents : Option (Latents F)} (hfamily : kind.family = .feature)
    (hinputs : ∀ column ∈ inputs, column.length = frame.rows.length)
    (hrows : kind.Ranks → 0 < frame.rows.length)
    (hcount : (nodeSpec kind).minInputs ≤ inputs.length) :
    Succeeds (evaluateFeatureNode frame kind params inputs) ↔
      Requirements frame latents kind params count := by
  have hsource : ∀ {P : Prop} {f : List F → Except Failure (Outputs F)}, 1 ≤ inputs.length →
      (∀ xs, xs.length = frame.rows.length → (Succeeds (f xs) ↔ P)) →
        (Succeeds (series inputs 0 >>= f) ↔ P) := fun h hf => series_iff hinputs h hf
  have hcolumn := length_column frame
  cases kind <;> cases hfamily
  case featureMinutesFromOpen.refl => exact str_iff fun _ => pure_iff.trans pure_iff
  case featureTimeOfDay.refl =>
    exact str_iff fun start => str_iff fun stop => pure_iff.trans (timeOfDay_succeeds frame)
  case featureSessionWindow.refl =>
    exact str_iff fun start => str_iff fun stop => pure_iff.trans (sessionWindow_succeeds frame)
  case featureVolRegime.refl =>
    exact hsource hcount fun xs hlen => volRegimeSteps_succeed (hlen ▸ hrows rfl)
  case featureTrendRegime.refl =>
    exact hsource hcount fun xs _ => int_iff fun _ => pure_iff.trans trendRegime_succeeds
  case featureRangeCompression.refl =>
    exact hsource hcount fun xs hlen => rangeCompressionSteps_succeed (hcolumn _) (hcolumn _) hlen
      (hrows rfl)
  case featureD1Volatility.refl =>
    refine iff_true_intro (pure_iff.mpr (pure_iff.mpr ?_))
    exact computeRealizedVol_succeeds.mpr (by decide)
  case featureDistPrevSessionHighAtr.refl => exact sessionDistance_succeeds frame
  case featureDistPrevSessionLowAtr.refl => exact sessionDistance_succeeds frame
  case featureDistPrevSessionCloseAtr.refl => exact sessionDistance_succeeds frame
  case featureOpeningRangeHigh.refl => exact pure_iff.trans (openingRange_succeeds frame)
  case featureOpeningRangeLow.refl => exact pure_iff.trans (openingRange_succeeds frame)
  -- the features that read the frame alone
  all_goals exact iff_true_intro succeeds_pure

theorem pair_succeeds {α : Type} {f : List F → List F → Except Failure α}
    (hinputs : ∀ column ∈ inputs, column.length = n) (h : 2 ≤ inputs.length)
    (hf : ∀ xs ys, Succeeds (f xs ys)) :
    Succeeds (series inputs 0 >>= fun xs => series inputs 1 >>= fun ys => f xs ys) :=
  of_iff_true (series_iff hinputs (by omega) fun xs _ => series_iff hinputs (by omega)
    fun ys _ => iff_true_intro (hf xs ys))

theorem evaluateBreakout_succeeds {now before : F → F → Bool}
    (hinputs : ∀ column ∈ inputs, column.length = n) (h : 3 ≤ inputs.length) :
    Succeeds (evaluateBreakout now before inputs) :=
  pair_succeeds hinputs (by omega) fun _ _ => of_iff_true
    (series_iff hinputs (by omega) fun _ _ => iff_true_intro succeeds_pure)

theorem evaluateLogic_succeeds {op : Bool → Bool → Bool} (h : 2 ≤ inputs.length) :
    Succeeds (evaluateLogic op inputs) :=
  of_iff_true (input_iff (by omega) fun _ => input_iff (by omega) fun _ =>
    iff_true_intro succeeds_pure)

theorem evaluateCross_succeeds {now before : F → F → Bool} {params : Params}
    (hinputs : ∀ column ∈ inputs, column.length = n) (h : 1 ≤ inputs.length) :
    Succeeds (evaluateCross now before params inputs) ↔ (inputs.length = 1 →
      Succeeds (((params.lookup "threshold").getD (.float 0)).toFloat : Except Failure F)) := by
  unfold evaluateCross
  split
  next hone =>
    refine (series_iff hinputs h fun _ _ => pure_iff).trans ?_
    simp only [hone, true_imp_iff]
  next hone =>
    refine iff_of_true (pair_succeeds hinputs (by omega) fun _ _ => succeeds_pure) fun h => ?_
    exact absurd h hone

theorem evaluateBoolNode_succeeds {kind : NodeKind} {params : Params}
    {latents : Option (Latents F)} (hfamily : kind.family = .cmp ∨ kind.family = .logic)
    (hinputs : ∀ column ∈ inputs, column.length = n)
    (hcount : (nodeSpec kind).minInputs ≤ inputs.length) :
    Succeeds (evaluateBoolNode kind params inputs) ↔
      Requirements frame latents kind params inputs.length := by
  have hcompare : ∀ {compare : F → F → Bool}, 2 ≤ inputs.length →
      (Succeeds (evaluateComparison compare inputs) ↔ True) := fun h =>
    iff_true_intro (pair_succeeds hinputs h fun _ _ => succeeds_pure)
  have htouch : ∀ {now before : F → F → Bool}, 2 ≤ inputs.length →
      (Succeeds (evaluateTouch now before inputs) ↔ True) := fun h =>
    iff_true_intro (pair_succeeds hinputs h fun _ _ => succeeds_pure)
  cases kind <;> obtain hfamily | hfamily := hfamily <;> cases hfamily
  case logicAnd.inr.refl => exact iff_true_intro (evaluateLogic_succeeds hcount)
  case logicOr.inr.refl => exact iff_true_intro (evaluateLogic_succeeds hcount)
  case logicNot.inr.refl => exact input_iff hcount fun _ => iff_true_intro succeeds_pure
  case cmpGt.inl.refl => exact hcompare hcount
  case cmpLt.inl.refl => exact hcompare hcount
  case cmpGte.inl.refl => exact hcompare hcount
  case cmpLte.inl.refl => exact hcompare hcount
  case cmpCrossAbove.inl.refl => exact evaluateCross_succeeds hinputs hcount
  case cmpCrossBelow.inl.refl => exact evaluateCross_succeeds hinputs hcount
  case cmpTouchBelow.inl.refl => exact htouch hcount
  case cmpTouchAbove.inl.refl => exact htouch hcount
  case cmpTrbBreakoutAbove.inl.refl => exact iff_true_intro (evaluateBreakout_succeeds hinputs hcount)
  case cmpTrbBreakoutBelow.inl.refl => exact iff_true_intro (evaluateBreakout_succeeds hinputs hcount)

theorem evaluateKind_succeeds {kind : NodeKind} {params : Params} {latents : Option (Latents F)}
    (hinputs : ∀ column ∈ inputs, column.length = frame.rows.length)
    (hrows : kind.Ranks → 0 < frame.rows.length)
    (hcount : (nodeSpec kind).minInputs ≤ inputs.length) :
    Succeeds (evaluateKind frame latents kind params inputs) ↔
      Requirements frame latents kind params inputs.length := by
  unfold evaluateKind
  split
  · exact iff_true_intro succeeds_ok
  · exact iff_true_intro succeeds_ok
  · exact iff_true_intro succeeds_ok
  · exact iff_true_intro succeeds_ok
  · exact iff_true_intro succeeds_ok
  · exact iff_true_intro (pair_succeeds hinputs hcount fun _ _ => succeeds_pure)
  next h1 h2 h3 h4 h5 h6 =>
    split
    next hfamily => exact evaluateExog_succeeds frame hfamily (by simp_all)
    next hfamily => exact evaluateIndicator_succeeds frame hfamily hinputs hcount
    next hfamily => exact evaluateTransform_succeeds hfamily hinputs hrows hcount
    next hfamily => exact evaluateFeatureNode_succeeds frame hfamily hinputs hrows hcount
    next hfamily => exact evaluateBoolNode_succeeds frame (.inl hfamily) hinputs hcount
    next hfamily => exact evaluateBoolNode_succeeds frame (.inr hfamily) hinputs hcount
    next hfamily =>
      refine iff_of_true succeeds_ok ?_
      cases kind <;> first | exact trivial | cases hfamily

theorem evaluateKind_succeeds_congr {kind : NodeKind} {params : Params}
    {latents : Option (Latents F)} {inputs' : List (Column F)}
    (hinputs : ∀ column ∈ inputs, column.length = frame.rows.length)
    (hinputs' : ∀ column ∈ inputs', column.length = frame.rows.length)
    (hlength : inputs.length = inputs'.length)
    (hcount : (nodeSpec kind).minInputs ≤ inputs.length) :
    Succeeds (evaluateKind frame latents kind params inputs) ↔
      Succeeds (evaluateKind frame latents kind params inputs') := by
  by_cases hrows : kind.Ranks → 0 < frame.rows.length
  · rw [evaluateKind_succeeds frame hinputs hrows hcount,
      evaluateKind_succeeds frame hinputs' hrows (hlength ▸ hcount), hlength]
  -- without rows the one input that is ranked has no values
  obtain ⟨hranks, hempty⟩ := Classical.not_imp.mp hrows
  have hcount' : (nodeSpec kind).minInputs ≤ inputs'.length := hlength ▸ hcount
  have hseries : ∀ {columns : List (Column F)},
      (∀ column ∈ columns, column.length = frame.rows.length) →
      1 ≤ columns.length → series columns 0 = .ok [] := by
    intro columns hcolumns hone
    obtain ⟨xs, hxs, hlen⟩ := exists_series hcolumns hone
    have hnil : xs = [] := List.eq_nil_of_length_eq_zero (by omega)
    rw [hxs, hnil]
  have hone : (nodeSpec kind).minInputs = 1 := by
    cases kind <;> first | rfl | cases hranks
  rw [hone] at hcount hcount'
  have hsame : series inputs 0 = series inputs' 0 :=
    (hseries hinputs hcount).trans (hseries hinputs' hcount').symm
  refine iff_of_eq (congrArg Succeeds ?_)
  cases kind <;> cases hranks
  · show evaluateTransform .transformRank params inputs =
      evaluateTransform .transformRank params inputs'
    simp only [evaluateTransform, hsame]
  · show evaluateFeatureNode frame .featureVolRegime params inputs =
      evaluateFeatureNode frame .featureVolRegime params inputs'
    simp only [evaluateFeatureNode, hsame]
  · show evaluateFeatureNode frame .featureRangeCompression params inputs =
      evaluateFeatureNode frame .featureRangeCompression params inputs'
    simp only [evaluateFeatureNode, hsame]

/-- A node of the kind with so many inputs is evaluated. -/
def Computes (latents : Option (Latents F)) (kind : NodeKind) (params : Params) (count : ℕ) :
    Prop :=
  ∃ inputs : List (Column F), inputs.length = count ∧
    (∀ column ∈ inputs, column.length = frame.rows.length) ∧
    Succeeds (evaluateKind frame latents kind params inputs)

theorem succeeds_iff_computes {kind : NodeKind} {params : Params} {latents : Option (Latents F)}
    (hinputs : ∀ column ∈ inputs, column.length = frame.rows.length)
    (hcount : (nodeSpec kind).minInputs ≤ inputs.length) :
    Succeeds (evaluateKind frame latents kind params inputs) ↔
      Computes frame latents kind params inputs.length := by
  constructor
  · exact fun h => ⟨inputs, rfl, hinputs, h⟩
  · rintro ⟨inputs', hlength, hinputs', h⟩
    exact (evaluateKind_succeeds_congr frame hinputs hinputs' hlength.symm hcount).mpr h

theorem computes_iff {kind : NodeKind} {params : Params} {latents : Option (Latents F)} {count : ℕ}
    (hrows : kind.Ranks → 0 < frame.rows.length) (hcount : (nodeSpec kind).minInputs ≤ count) :
    Computes frame latents kind params count ↔ Requirements frame latents kind params count := by
  constructor
  · rintro ⟨inputs, rfl, hinputs, h⟩
    exact (evaluateKind_succeeds frame hinputs hrows hcount).mp h
  · intro h
    have hinputs : ∀ column ∈ List.replicate count
        (Column.numbers (List.replicate frame.rows.length (nan : F))),
        column.length = frame.rows.length := by
      intro column hcolumn
      rw [List.eq_of_mem_replicate hcolumn]
      exact List.length_replicate
    have hlength := List.length_replicate (n := count)
      (a := Column.numbers (List.replicate frame.rows.length (nan : F)))
    refine ⟨_, hlength, hinputs, (evaluateKind_succeeds frame hinputs hrows ?_).mpr ?_⟩
    · rw [hlength]
      exact hcount
    · rw [hlength]
      exact h

end Success

end QBackend.GenomeDsl
