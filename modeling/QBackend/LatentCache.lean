import QBackend.ExecutionDomain
import QBackend.FallibleSteps
import QBackend.KeyedCaches

/-!
# Neural latents and the cache of model outputs

`_compute_neural` of `features/compute.py` with `_get_or_compute_latent_frame`. An encoder turns
classical features of the bars into latents; the frame of latents is kept in the process under the
model and under the number of bars with the first and the last time. The classical features, the
encoders, `sort_values` and the digest are parameters; the inputs of an encoder are classical
features. The encoder stored for a hash may change between requests, as training again with the same
configuration writes under the same hash.
-/

namespace QBackend.NeuralFeatures

open Execution (Time)
open FallibleSteps KeyedCaches

structure Bar (F : Type) where
  time : Time
  openPrice : F
  high : F
  low : F
  close : F
  volume : F
  deriving DecidableEq, Repr

inductive NeuralError where
  | unsortedBars
  | missingModelHash (name : String)
  | modelNotFound (modelHash : String)
  | unknownFeature (name : String)
  | unknownLatentColumn (name : String)
  | shapeMismatch
  | latentColumnNotFound (name modelHash : String)
  | leak (index : ℕ)
  deriving DecidableEq, Repr

structure FeatureSpec where
  name : String
  version : ℤ
  modelHash : Option String

/-- Named columns with one value for each row; `NaN` is `none`. -/
abbrev Columns (F : Type) := List (String × List (Option F))

structure Encoder (F : Type) where
  inputFeatures : List String
  trainEnd : Time
  latentNames : List String
  transform : List (List F) → Except NeuralError (Columns F)

/-- What the computation takes from outside. -/
structure Library (F : Type) where
  digest : String → String
  timeText : Time → String
  sort : List (Bar F) → List (Bar F)
  classical : List (Bar F) → String → Except NeuralError (List (Option F))
  featureId : FeatureSpec → String

inductive LeakageStatus where
  | clean | suspect
  deriving DecidableEq, Repr

structure FeatureSeries (F : Type) where
  featureId : String
  times : List Time
  values : List (Option F)
  warmupBars : ℕ
  leakageStatus : LeakageStatus
  deriving DecidableEq, Repr

section Latents

variable {F : Type} (lib : Library F)

/-! ## The frame of latents -/

def buildClassicalInputWindow (bars : List (Bar F)) (inputFeatures : List String) :
    Except NeuralError (Columns F) :=
  inputFeatures.mapM fun name => do
    let column ← lib.classical (lib.sort bars) name
    return (name, column)

/-- The values of a row, where all are there. -/
def finiteRow (window : Columns F) (i : ℕ) : Option (List F) :=
  window.mapM fun column => column.2.getD i none

/-- Values for the rows of the mask, in their order. -/
def scatter : List Bool → List (Option F) → List (Option F)
  | [], _ => []
  | false :: mask, values => none :: scatter mask values
  | true :: mask, [] => none :: scatter mask []
  | true :: mask, value :: values => value :: scatter mask values

def computeLatentFrame (encoder : Encoder F) (bars : List (Bar F)) :
    Except NeuralError (Columns F) := do
  let window ← buildClassicalInputWindow lib bars encoder.inputFeatures
  let rows := (List.range bars.length).map (finiteRow window)
  let mask := rows.map Option.isSome
  if mask.any id then
    let encoded ← encoder.transform rows.reduceOption
    encoded.forM fun column => ensure (column.1 ∈ encoder.latentNames)
      (.unknownLatentColumn column.1)
    ensure (∀ column ∈ encoded, column.2.length = rows.reduceOption.length) .shapeMismatch
    return encoder.latentNames.map fun name => (name, scatter mask ((encoded.lookup name).getD []))
  else
    return encoder.latentNames.map fun name => (name, mask.map fun _ => none)

/-- The number of bars and the times at the ends. -/
def barsRangeHash (bars : List (Bar F)) : String :=
  match bars.head?, bars.getLast? with
  | some first, some last =>
    lib.digest (toString bars.length ++ "|" ++ lib.timeText first.time ++ "|" ++
      lib.timeText last.time)
  | _, _ => "empty"

/-! ## A request -/

def oosWarmupBars (times : List Time) (trainEnd : Time) : ℕ := times.countP (· ≤ trainEnd)

def applyWarmup (values : List (Option F)) (warmupBars : ℕ) : List (Option F) :=
  values.mapIdx fun i value => if i < warmupBars then none else value

/-- The first row at or before the end of training that has a value. -/
def assertNeuralOosOnly (values : List (Option F)) (times : List Time) (trainEnd : Time) :
    Except NeuralError Unit :=
  match (values.zip times).findIdx? fun row => row.1.isSome && row.2 ≤ trainEnd with
  | some index => .error (.leak index)
  | none => .ok ()

def neuralLeakageStatus (times : List Time) (values : List (Option F)) (trainEnd : Time) :
    LeakageStatus :=
  if times.any (· ≤ trainEnd) then .suspect
  else if ¬ values.any Option.isSome then .suspect
  else .clean

/-- The series of a latent from the frame. -/
def latentSeries (spec : FeatureSpec) (modelHash : String) (encoder : Encoder F)
    (df : List (Bar F)) (latentFrame : Columns F) : Except NeuralError (FeatureSeries F) := do
  let times := df.map Bar.time
  match latentFrame.lookup spec.name with
  | none => .error (.latentColumnNotFound spec.name modelHash)
  | some raw =>
    let warmup := oosWarmupBars times encoder.trainEnd
    let values := applyWarmup raw warmup
    ensure (values.length = times.length) .shapeMismatch
    assertNeuralOosOnly values times encoder.trainEnd
    return { featureId := lib.featureId spec, times, values, warmupBars := warmup
             leakageStatus := neuralLeakageStatus times values encoder.trainEnd }

/-- A request for a latent, with the models that are stored when it comes. -/
structure Request (F : Type) where
  bars : List (Bar F)
  spec : FeatureSpec
  models : String → Except NeuralError (Encoder F)

/-- What a request that passes its checks computes from: the model and the bars in order. -/
structure Resolved (F : Type) where
  modelHash : String
  encoder : Encoder F
  df : List (Bar F)

def resolve (request : Request F) : Except NeuralError (Resolved F) := do
  ensure ((request.bars.map Bar.time).Pairwise (· ≤ ·)) .unsortedBars
  match request.spec.modelHash with
  | none => .error (.missingModelHash request.spec.name)
  | some modelHash =>
    let encoder ← request.models modelHash
    return ⟨modelHash, encoder, lib.sort request.bars⟩

abbrev CacheKey := String × String

def Resolved.key (r : Resolved F) : CacheKey := (r.modelHash, barsRangeHash lib r.df)

def Resolved.frame (r : Resolved F) : Except NeuralError (Columns F) :=
  computeLatentFrame lib r.encoder r.df

/-- `_MODEL_OUTPUT_CACHE`, with its limit. -/
abbrev ModelOutputs (F : Type) := Recent CacheKey (Columns F)

def modelOutputCache (F : Type) : Cache (ModelOutputs F) CacheKey (Columns F) := Recent.cache 32

def computeNeural (outputs : ModelOutputs F) (request : Request F) :
    Except NeuralError (FeatureSeries F) × ModelOutputs F :=
  match resolve lib request with
  | .error e => (.error e, outputs)
  | .ok r =>
    let served := (modelOutputCache F).serve (Resolved.frame lib) outputs (r.key lib) r
    (served.1 >>= latentSeries lib request.spec r.modelHash r.encoder r.df, served.2)

/-! ## Requests in one process -/

def serveRequests (outputs : ModelOutputs F) :
    List (Request F) → List (Except NeuralError (FeatureSeries F))
  | [] => []
  | request :: requests =>
    let answer := computeNeural lib outputs request
    answer.1 :: serveRequests answer.2 requests

/-- The answer of a process that has computed nothing before. -/
def computeFresh (request : Request F) : Except NeuralError (FeatureSeries F) :=
  (computeNeural lib Recent.empty request).1

/-- Whenever the cache has an entry for a request, the request that put it there had the same model
and the same bars. -/
def StoredAlike (outputs : ModelOutputs F) (origin : CacheKey → Option (Resolved F)) :
    List (Request F) → Prop
  | [] => True
  | request :: requests =>
    (∀ r, resolve lib request = .ok r → outputs.lookup (r.key lib) ≠ none →
      origin (r.key lib) = some r) ∧
    StoredAlike (computeNeural lib outputs request).2
      (match resolve lib request with
        | .error _ => origin
        | .ok r => (modelOutputCache F).note (Resolved.frame lib) outputs origin (r.key lib) r)
      requests

variable {lib} {outputs : ModelOutputs F} {origin : CacheKey → Option (Resolved F)}
  {request : Request F} {r : Resolved F}

theorem computeNeural_of_ok (h : resolve lib request = .ok r) :
    computeNeural lib outputs request =
      (((modelOutputCache F).serve (Resolved.frame lib) outputs (r.key lib) r).1 >>=
          latentSeries lib request.spec r.modelHash r.encoder r.df,
        ((modelOutputCache F).serve (Resolved.frame lib) outputs (r.key lib) r).2) := by
  unfold computeNeural
  rw [h]

theorem computeNeural_of_error {e : NeuralError} (h : resolve lib request = .error e) :
    computeNeural lib outputs request = (.error e, outputs) := by
  unfold computeNeural
  rw [h]

/-- A fresh process computes the frame from the bars of the request. -/
theorem computeFresh_of_ok (h : resolve lib request = .ok r) :
    computeFresh lib request =
      (r.frame lib >>= latentSeries lib request.spec r.modelHash r.encoder r.df) := by
  have hbacked : (modelOutputCache F).Backed (Resolved.frame lib) (fun _ => none)
      (Recent.empty : ModelOutputs F) := fun _ _ hv => by cases hv
  rw [computeFresh, computeNeural_of_ok h, hbacked.serve_eq]
  exact fun hfound => absurd rfl hfound

theorem computeNeural_eq_fresh
    (hbacked : (modelOutputCache F).Backed (Resolved.frame lib) origin outputs)
    (hsame : ∀ r, resolve lib request = .ok r → outputs.lookup (r.key lib) ≠ none →
      origin (r.key lib) = some r) :
    (computeNeural lib outputs request).1 = computeFresh lib request := by
  cases h : resolve lib request with
  | error e => rw [computeFresh, computeNeural_of_error h, computeNeural_of_error h]
  | ok r =>
    rw [computeFresh_of_ok h, computeNeural_of_ok h, hbacked.serve_eq (hsame r h)]

theorem serveRequests_of_backed
    (hbacked : (modelOutputCache F).Backed (Resolved.frame lib) origin outputs)
    {requests : List (Request F)} (halike : StoredAlike lib outputs origin requests) :
    serveRequests lib outputs requests = requests.map (computeFresh lib) := by
  induction requests generalizing outputs origin with
  | nil => rfl
  | cons request requests ih =>
    obtain ⟨hsame, hrest⟩ := halike
    rw [serveRequests, List.map_cons, computeNeural_eq_fresh hbacked hsame]
    congr 1
    refine ih ?_ hrest
    cases h : resolve lib request with
    | error e =>
      rw [computeNeural_of_error h]
      exact hbacked
    | ok r =>
      rw [computeNeural_of_ok h]
      exact hbacked.serve (r.key lib) r

/-- Latents are a function of the bars and the model in every run in which the entries that answer
a request were computed from the same model and bars. -/
theorem latents_eq_fresh (lib : Library F) {requests : List (Request F)}
    (halike : StoredAlike lib Recent.empty (fun _ => none) requests) :
    serveRequests lib Recent.empty requests = requests.map (computeFresh lib) :=
  serveRequests_of_backed (fun _ _ hv => by cases hv) halike

theorem storedAlike_of_determined {all requests : List (Request F)}
    (hdetermined : ∀ q ∈ all, ∀ q' ∈ all, ∀ r r', resolve lib q = .ok r → resolve lib q' = .ok r' →
      r.key lib = r'.key lib → r = r')
    (hbacked : (modelOutputCache F).Backed (Resolved.frame lib) origin outputs)
    (horigin : ∀ k r, origin k = some r → r.key lib = k ∧ ∃ q ∈ all, resolve lib q = .ok r)
    (hsub : ∀ q ∈ requests, q ∈ all) : StoredAlike lib outputs origin requests := by
  induction requests generalizing outputs origin with
  | nil => trivial
  | cons request requests ih =>
    have hrequest := hsub request List.mem_cons_self
    refine ⟨fun r hr hfound => ?_, ih ?_ ?_ fun q hq => hsub q (List.mem_cons_of_mem _ hq)⟩
    · obtain ⟨v, hv⟩ := Option.ne_none_iff_exists'.mp hfound
      obtain ⟨r', hr', -⟩ := hbacked _ v hv
      obtain ⟨hkey, q, hq, hresolve⟩ := horigin _ r' hr'
      rw [hr', hdetermined q hq request hrequest r' r hresolve hr hkey]
    · cases h : resolve lib request with
      | error e =>
        rw [computeNeural_of_error h]
        exact hbacked
      | ok r =>
        rw [computeNeural_of_ok h]
        exact hbacked.serve (r.key lib) r
    · cases h : resolve lib request with
      | error e => exact horigin
      | ok r =>
        intro k r' hr'
        obtain hold | ⟨rfl, rfl⟩ := Cache.note_eq_some hr'
        · exact horigin k r' hold
        · exact ⟨rfl, request, hrequest, h⟩

end Latents

/-! ## Two symbols of one calendar -/

/-- The closing prices are the only feature, and the encoder hands them on under two names. -/
def closeLibrary : Library ℕ where
  digest := id
  timeText := fun t => if t = 0 then "first" else "last"
  sort := id
  classical := fun bars _ => .ok (bars.map fun bar => some bar.close)
  featureId := fun spec => spec.name

def closeEncoder : Encoder ℕ where
  inputFeatures := ["close"]
  trainEnd := -1
  latentNames := ["latent_001", "latent_002"]
  transform := fun rows =>
    .ok [("latent_001", rows.map List.head?), ("latent_002", rows.map List.head?)]

def barsWithClose (close : ℕ) : List (Bar ℕ) := [⟨0, 1, 1, 1, close, 1⟩, ⟨1, 1, 1, 1, close, 1⟩]

def latentRequest (close : ℕ) (latent : String) : Request ℕ :=
  ⟨barsWithClose close, ⟨latent, 1, some "model"⟩, fun _ => .ok closeEncoder⟩

/-- A second latent of the same bars comes from the cache and is right. -/
theorem second_latent_eq_fresh :
    serveRequests closeLibrary Recent.empty
        [latentRequest 10 "latent_001", latentRequest 10 "latent_002"] =
      [computeFresh closeLibrary (latentRequest 10 "latent_001"),
        computeFresh closeLibrary (latentRequest 10 "latent_002")] := by
  have hresolve : ∀ q ∈ [latentRequest 10 "latent_001", latentRequest 10 "latent_002"],
      resolve closeLibrary q = .ok ⟨"model", closeEncoder, barsWithClose 10⟩ := by
    intro q hq
    obtain rfl | hq := List.mem_cons.mp hq
    · rfl
    · cases List.mem_singleton.mp hq
      rfl
  refine latents_eq_fresh closeLibrary (storedAlike_of_determined ?_ (fun _ _ hv => by cases hv)
    (fun _ _ hr => by cases hr) fun _ hq => hq)
  intro q hq q' hq' r r' hr hr' _
  rw [hresolve q hq] at hr
  rw [hresolve q' hq'] at hr'
  cases hr
  cases hr'
  rfl

/-- Bars of the same times with other prices get the latents of the first. -/
theorem same_calendar_stale :
    ¬ serveRequests closeLibrary Recent.empty
        [latentRequest 10 "latent_001", latentRequest 20 "latent_001"] =
      [computeFresh closeLibrary (latentRequest 10 "latent_001"),
        computeFresh closeLibrary (latentRequest 20 "latent_001")] := by
  intro h
  have hvalues := congrArg (List.map fun answer => answer.toOption.map FeatureSeries.values) h
  revert hvalues
  decide +kernel

end QBackend.NeuralFeatures
