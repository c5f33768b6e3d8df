import QBackend.ExogenousContext
import QBackend.JsonValues
import QBackend.SortedPartitions
import Mathlib.Data.List.Induction
import Mathlib.Data.String.Basic

/-!
# Feature matrices and their place in the lake

`build_feature_matrix` of `features/matrix.py`. A matrix is stored under an id made from the request:
the symbol, the timeframe, the bounds to the second, the features and the version of the engine. A
call that finds its id stored returns what is there; otherwise the bars are read and the features
computed. What is stored in the market and in the catalog may change between calls; the computation
of one feature or exogenous series and the digests are parameters that do not. `compute_feature`
refuses bars that are not in the order of time, so the rows of a matrix are those of the bars.
-/

namespace QBackend.FeatureMatrices

open Execution (Time)
open Exogenous FallibleSteps JsonValues NeuralFeatures OrderedSeries SortedPartitions

variable {F : Type}

/-! ## Requests -/

inductive MatrixError where
  | noFeatures
  | exogenousSeriesRequired
  | unknownFeature (name : String)
  | noVersion (name : String) (version : ℤ)
  | unknownParams (name : String) (keys : List String)
  | external (text : String)
  deriving DecidableEq, Repr

/-- What a catalog entry says of a feature here. -/
structure CatalogSpec (F : Type) where
  name : String
  version : ℤ
  exogenous : Bool
  modelHash : Option String
  paramKeys : List String
  defaultParams : Dict F

structure FeatureRequest (F : Type) where
  name : String
  version : Option ℤ
  params : Dict F

structure MatrixRequest (F : Type) where
  symbol : String
  timeframe : String
  start : Time
  stop : Time
  features : List (FeatureRequest F)
  useCache : Bool
  exogenousSeries : List (ExogenousSeriesConfig F)

/-- A row of bars with the exogenous columns. -/
structure MatrixRow (F : Type) where
  bar : Bar F
  exogenous : List (String × Option F)

structure ComputedFeature (F : Type) where
  values : List (Option F)
  warmupBars : ℕ
  leakageStatus : LeakageStatus

/-- The catalog and the market at the time of a call. -/
structure Surroundings (F : Type) where
  specs : String → Option (CatalogSpec F)
  readOhlcvFresh : String → String → Time → Time → Except MatrixError (List (Bar F))
  now : Time

/-- The code that computes: the columns of one exogenous series, from its bars, and a feature. -/
structure Engine (F : Type) where
  attachSeries : String → ExogenousSeriesConfig F → List (MatrixRow F) → List (Bar F) →
    Except MatrixError (List (MatrixRow F))
  computeFeature : List (MatrixRow F) → CatalogSpec F → Dict F →
    Except MatrixError (ComputedFeature F)

structure Call (F : Type) where
  request : MatrixRequest F
  surroundings : Surroundings F

/-! ## The id -/

structure FeatureEntry (F : Type) where
  featureId : String
  version : ℤ
  params : Dict F

/-- `_matrix_cache_payload`; the times are in seconds. -/
structure MatrixPayload (F : Type) where
  symbol : String
  timeframe : String
  start : ℤ
  stop : ℤ
  engineVersion : ℕ
  features : List (FeatureEntry F)
  exogenousSeries : List (ExogenousSeriesConfig F)

/-- The digests: of the identity of a feature and of a payload. -/
structure Digests (F : Type) where
  feature : Option String → Dict F → String
  matrix : MatrixPayload F → String

def engineVersion : ℕ := 1

/-- `_iso_z` writes no fraction of a second. -/
def isoZ (t : Time) : ℤ := t / 1000000

def sortedItems (params : Dict F) : Dict F := params.mergeSort fun a b => decide (a.1 ≤ b.1)

section Build

variable (engine : Engine F) (digests : Digests F)

def featureId (spec : CatalogSpec F) (params : Dict F) : String :=
  spec.name ++ ".v" ++ toString spec.version ++ "." ++
    digests.feature spec.modelHash (sortedItems params)

def getFeatureSpec (s : Surroundings F) (name : String) (version : Option ℤ) :
    Except MatrixError (CatalogSpec F) :=
  match s.specs name with
  | none => .error (.unknownFeature name)
  | some spec =>
    match version with
    | none => .ok spec
    | some v => if spec.version = v then .ok spec else .error (.noVersion name v)

def resolveParams (spec : CatalogSpec F) (overrides : Dict F) : Except MatrixError (Dict F) :=
  let unknown := (overrides.map Prod.fst).filter (· ∉ spec.paramKeys)
  if unknown = [] then .ok (mergeFields spec.defaultParams overrides)
  else .error (.unknownParams spec.name unknown)

/-- A feature as it is looked up: its entry in the catalog, its parameters and its id. -/
structure ResolvedFeature (F : Type) where
  spec : CatalogSpec F
  params : Dict F
  featureId : String

def resolveRequest (s : Surroundings F) (request : FeatureRequest F) :
    Except MatrixError (ResolvedFeature F) := do
  let spec ← getFeatureSpec s request.name request.version
  let params ← resolveParams spec request.params
  return ⟨spec, params, featureId digests spec params⟩

def needExogenous (s : Surroundings F) (features : List (FeatureRequest F)) :
    Except MatrixError Bool :=
  return (← features.mapM fun request => getFeatureSpec s request.name none).any
    CatalogSpec.exogenous

def matrixCachePayload (request : MatrixRequest F) (features : List (ResolvedFeature F)) :
    MatrixPayload F where
  symbol := request.symbol
  timeframe := request.timeframe.toUpper
  start := isoZ request.start
  stop := isoZ request.stop
  engineVersion := engineVersion
  features := (features.map fun f =>
    (⟨f.featureId, f.spec.version, sortedItems f.params⟩ : FeatureEntry F)).mergeSort
      fun a b => decide (a.featureId ≤ b.featureId)
  exogenousSeries := request.exogenousSeries

/-- The features and the id of a call that passes its checks. -/
def identify (call : Call F) : Except MatrixError (List (ResolvedFeature F) × String) := do
  let request := call.request
  ensure (request.features ≠ []) .noFeatures
  let needs ← needExogenous call.surroundings request.features
  ensure (needs = true → request.exogenousSeries ≠ []) .exogenousSeriesRequired
  let features ← request.features.mapM (resolveRequest digests call.surroundings)
  return (features, digests.matrix (matrixCachePayload request features))

/-! ## Building -/

structure MatrixFrame (F : Type) where
  times : List Time
  columns : List (String × List (Option F))
  deriving DecidableEq, Repr

structure FeatureRow (F : Type) where
  featureId : String
  name : String
  version : ℤ
  params : Dict F
  warmupBars : ℕ
  leakageStatus : LeakageStatus

structure Manifest (F : Type) where
  matrixId : String
  symbol : String
  timeframe : String
  start : ℤ
  stop : ℤ
  barCount : ℕ
  validFrom : Option ℤ
  features : List (FeatureRow F)
  engineVersion : ℕ
  builtAt : ℤ

structure FeatureMatrix (F : Type) where
  matrixId : String
  frame : MatrixFrame F
  manifest : Manifest F

/-- The rows from which a matrix is built. Every reader takes the timeframe in capitals. -/
def readRows (call : Call F) : Except MatrixError (List (MatrixRow F)) := do
  let request := call.request
  let timeframe := request.timeframe.toUpper
  let read := call.surroundings.readOhlcvFresh
  let bars ← read request.symbol timeframe request.start request.stop
  request.exogenousSeries.foldlM (fun rows series => do
    let source ← read series.symbol series.sourceTimeframe request.start request.stop
    engine.attachSeries timeframe series rows source) (bars.map fun bar => ⟨bar, []⟩)

def computeColumns (rows : List (MatrixRow F)) (features : List (ResolvedFeature F)) :
    Except MatrixError (List (ResolvedFeature F × ComputedFeature F)) :=
  features.mapM fun f => do
    let computed ← engine.computeFeature rows f.spec (sortedItems f.params)
    return (f, computed)

/-- Columns by the id of their feature, in the order of the ids; of two with one id the last. -/
def matrixFrame (rows : List (MatrixRow F))
    (computed : List (ResolvedFeature F × ComputedFeature F)) : MatrixFrame F where
  times := rows.map fun row => row.bar.time
  columns := merge Prod.fst [] (computed.map fun c => (c.1.featureId, c.2.values))

def unionWarmup (computed : List (ResolvedFeature F × ComputedFeature F)) : ℕ :=
  computed.foldl (fun warmup c => max warmup c.2.warmupBars) 0

def buildManifest (call : Call F) (matrixId : String) (rows : List (MatrixRow F))
    (computed : List (ResolvedFeature F × ComputedFeature F)) : Manifest F where
  matrixId := matrixId
  symbol := call.request.symbol
  timeframe := call.request.timeframe.toUpper
  start := isoZ call.request.start
  stop := isoZ call.request.stop
  barCount := rows.length
  validFrom := (rows[unionWarmup computed]?).map fun row => isoZ row.bar.time
  features := ((call.request.features.zip computed).map fun (request, c) =>
    ({ featureId := c.1.featureId, name := request.name, version := c.1.spec.version
       params := sortedItems c.1.params, warmupBars := c.2.warmupBars
       leakageStatus := c.2.leakageStatus } : FeatureRow F)).mergeSort
      fun a b => decide (a.featureId ≤ b.featureId)
  engineVersion := engineVersion
  builtAt := isoZ call.surroundings.now

/-- The matrix from the bars as they are at the time of the call. -/
def rebuild (call : Call F) (features : List (ResolvedFeature F)) (matrixId : String) :
    Except MatrixError (FeatureMatrix F) := do
  let rows ← readRows engine call
  let computed ← computeColumns engine rows features
  return ⟨matrixId, matrixFrame rows computed, buildManifest call matrixId rows computed⟩

/-- The matrices in the lake by id. -/
abbrev Lake (F : Type) := String → Option (FeatureMatrix F)

/-- A frame without rows or columns is read back without both. -/
def MatrixFrame.readBack (frame : MatrixFrame F) : MatrixFrame F :=
  if frame.times = [] ∨ frame.columns = [] then ⟨[], []⟩ else frame

def readFeatureMatrix (stored : FeatureMatrix F) : FeatureMatrix F :=
  { stored with frame := stored.frame.readBack }

def buildFeatureMatrix (lake : Lake F) (call : Call F) :
    Except MatrixError (FeatureMatrix F) × Lake F :=
  match identify digests call with
  | .error e => (.error e, lake)
  | .ok (features, matrixId) =>
    match (if call.request.useCache then lake matrixId else none) with
    | some stored => (.ok (readFeatureMatrix stored), lake)
    | none =>
      match rebuild engine call features matrixId with
      | .error e => (.error e, lake)
      | .ok matrix => (.ok matrix, Function.update lake matrixId (some matrix))

/-- The lake after calls one after another. -/
def lakeAfter (calls : List (Call F)) : Lake F :=
  calls.foldl (fun lake call => (buildFeatureMatrix engine digests lake call).2) fun _ => none

/-! ## What is in the lake -/

variable {engine} {digests} {call earlier : Call F} {calls : List (Call F)} {lake : Lake F}
  {features features' : List (ResolvedFeature F)} {matrixId : String} {stored : FeatureMatrix F}

/-- Every matrix in the lake was built by one of the calls, under its id. -/
def Built (engine : Engine F) (digests : Digests F) (lake : Lake F) (calls : List (Call F)) : Prop :=
  ∀ matrixId stored, lake matrixId = some stored →
    ∃ earlier ∈ calls, ∃ features, identify digests earlier = .ok (features, matrixId) ∧
      rebuild engine earlier features matrixId = .ok stored

/-- A call leaves the lake, or puts in what it has built. -/
theorem buildFeatureMatrix_lake (engine : Engine F) (digests : Digests F) (lake : Lake F)
    (call : Call F) :
    (buildFeatureMatrix engine digests lake call).2 = lake ∨
      ∃ features matrixId matrix, identify digests call = .ok (features, matrixId) ∧
        rebuild engine call features matrixId = .ok matrix ∧
        (buildFeatureMatrix engine digests lake call).2 =
          Function.update lake matrixId (some matrix) := by
  unfold buildFeatureMatrix
  cases hid : identify digests call with
  | error e => exact Or.inl rfl
  | ok identified =>
    obtain ⟨features, matrixId⟩ := identified
    dsimp only
    split
    · exact Or.inl rfl
    · cases hmatrix : rebuild engine call features matrixId with
      | error e => exact Or.inl rfl
      | ok matrix => exact Or.inr ⟨features, matrixId, matrix, rfl, hmatrix, rfl⟩

theorem Built.step (h : Built engine digests lake calls) (call : Call F) :
    Built engine digests (buildFeatureMatrix engine digests lake call).2 (calls ++ [call]) := by
  have hold : Built engine digests lake (calls ++ [call]) := by
    intro matrixId stored hstored
    obtain ⟨earlier, hmem, hbuilt⟩ := h matrixId stored hstored
    exact ⟨earlier, List.mem_append_left _ hmem, hbuilt⟩
  obtain hlake | ⟨features, matrixId, matrix, hid, hmatrix, hlake⟩ :=
    buildFeatureMatrix_lake engine digests lake call
  · rw [hlake]
    exact hold
  · rw [hlake]
    intro other stored hstored
    by_cases hother : other = matrixId
    · subst hother
      rw [Function.update_self] at hstored
      cases hstored
      exact ⟨call, by simp, features, hid, hmatrix⟩
    · rw [Function.update_of_ne hother] at hstored
      exact hold other stored hstored

theorem built_lakeAfter (engine : Engine F) (digests : Digests F) (calls : List (Call F)) :
    Built engine digests (lakeAfter engine digests calls) calls := by
  induction calls using List.reverseRecOn with
  | nil => exact fun _ _ hstored => by cases hstored
  | append_singleton calls call ih =>
    unfold lakeAfter
    rw [List.foldl_append]
    exact Built.step ih call

/-! ## What an id tells -/

/-- The payloads from which the ids of the calls are made. -/
def payloads (digests : Digests F) (calls : List (Call F)) : Set (MatrixPayload F) :=
  {payload | ∃ call ∈ calls, ∃ features matrixId, identify digests call = .ok (features, matrixId) ∧
    payload = matrixCachePayload call.request features}

/-- The identities from which the ids of their features are made. -/
def identities (digests : Digests F) (calls : List (Call F)) : Set (Option String × Dict F) :=
  {identity | ∃ call ∈ calls, ∃ features matrixId,
    identify digests call = .ok (features, matrixId) ∧
      ∃ f ∈ features, identity = (f.spec.modelHash, sortedItems f.params)}

/-- The digests are hexadecimal, and no two that the calls make collide. -/
structure Digests.Faithful (digests : Digests F) (calls : List (Call F)) : Prop where
  hex : ∀ modelHash params, '.' ∉ (digests.feature modelHash params).toList
  feature : Set.InjOn (fun identity : Option String × Dict F =>
    digests.feature identity.1 identity.2) (identities digests calls)
  matrix : Set.InjOn digests.matrix (payloads digests calls)

/-- Entries of the catalog that differ have another name, version or model, also at other times. -/
def Versioned (calls : List (Call F)) : Prop :=
  ∀ call ∈ calls, ∀ earlier ∈ calls, ∀ key key' spec spec',
    call.surroundings.specs key = some spec → earlier.surroundings.specs key' = some spec' →
    spec.name = spec'.name → spec.version = spec'.version → spec.modelHash = spec'.modelHash →
    spec = spec'

/-- The bounds of the requests have no fraction of a second. -/
def WholeSeconds (calls : List (Call F)) : Prop :=
  ∀ call ∈ calls, call.request.start % 1000000 = 0 ∧ call.request.stop % 1000000 = 0

/-- Features that are computed alike. -/
structure ResolvedFeature.Alike (f g : ResolvedFeature F) : Prop where
  featureId : f.featureId = g.featureId
  spec : f.spec = g.spec
  params : sortedItems f.params = sortedItems g.params

/-- A feature as a call looks it up. -/
def LooksUp (digests : Digests F) (call : Call F) (f : ResolvedFeature F) : Prop :=
  (∃ key, call.surroundings.specs key = some f.spec) ∧
    f.featureId = featureId digests f.spec f.params

theorem identify_ok (h : identify digests call = .ok (features, matrixId)) :
    features ≠ [] ∧ (∀ f ∈ features, LooksUp digests call f) ∧
      matrixId = digests.matrix (matrixCachePayload call.request features) := by
  obtain ⟨⟨⟩, hsome, h⟩ := bind_eq_ok.mp h
  obtain ⟨needs, -, h⟩ := bind_eq_ok.mp h
  obtain ⟨-, -, h⟩ := bind_eq_ok.mp h
  obtain ⟨resolved, hresolved, h⟩ := bind_eq_ok.mp h
  cases pure_eq_ok.mp h
  refine ⟨?_, fun f hf => ?_, rfl⟩
  · rintro rfl
    have hlength := (forall₂_of_mapM hresolved).length_eq
    exact ensure_eq_ok.mp hsome (List.length_eq_zero_iff.mp hlength)
  · obtain ⟨request, -, hrequest⟩ := (mem_of_mapM hresolved).mp hf
    obtain ⟨spec, hspec, hrequest⟩ := bind_eq_ok.mp hrequest
    obtain ⟨params, -, hrequest⟩ := bind_eq_ok.mp hrequest
    cases pure_eq_ok.mp hrequest
    refine ⟨⟨request.name, ?_⟩, rfl⟩
    unfold getFeatureSpec at hspec
    split at hspec
    · cases hspec
    · split at hspec
      · cases hspec
        assumption
      · split at hspec
        · cases hspec
          assumption
        · cases hspec

theorem toList_toString (n : ℤ) :
    (toString n).toList = (if n < 0 then ['-'] else []) ++ Nat.toDigits 10 n.natAbs := by
  cases n with
  | ofNat n => exact Nat.toList_repr
  | negSucc n =>
    show ("-" ++ Nat.repr (n + 1)).toList = _
    rw [String.toList_append, Nat.toList_repr, if_pos (Int.negSucc_lt_zero n)]
    rfl

theorem notMem_toDigits {c : Char} (hc : c.isDigit = false) (n : ℕ) : c ∉ Nat.toDigits 10 n := by
  intro hmem
  have hdigit := Nat.isDigit_of_mem_toDigits (by decide) (by decide) hmem
  rw [hc] at hdigit
  cases hdigit

theorem toString_injective : Function.Injective (toString : ℤ → String) := by
  intro m n h
  have hlists := congrArg String.toList h
  rw [toList_toString, toList_toString] at hlists
  have hnat : ∀ a b : ℕ, Nat.toDigits 10 a = Nat.toDigits 10 b → a = b := fun a b hab => by
    rw [← Nat.ofDigitChars_ten_toDigits (n := a), hab, Nat.ofDigitChars_ten_toDigits]
  have hminus := notMem_toDigits (c := '-') (by decide)
  split at hlists <;> split at hlists
  · have := hnat _ _ (List.cons.inj hlists).2
    omega
  · have hmem : '-' ∈ [] ++ Nat.toDigits 10 n.natAbs := hlists ▸ List.mem_cons_self
    exact absurd hmem (hminus _)
  · have hmem : '-' ∈ [] ++ Nat.toDigits 10 m.natAbs := hlists.symm ▸ List.mem_cons_self
    exact absurd hmem (hminus _)
  · have := hnat _ _ hlists
    omega

theorem cons_dot_inj {before before' after after' : List Char} (h : '.' ∉ before)
    (h' : '.' ∉ before') (heq : before ++ '.' :: after = before' ++ '.' :: after') :
    before = before' ∧ after = after' := by
  induction before generalizing before' with
  | nil =>
    cases before' with
    | nil => exact ⟨rfl, (List.cons.inj heq).2⟩
    | cons c before' => exact absurd ((List.cons.inj heq).1 ▸ List.mem_cons_self) h'
  | cons c before ih =>
    cases before' with
    | nil => exact absurd ((List.cons.inj heq).1 ▸ List.mem_cons_self) h
    | cons c' before' =>
      obtain ⟨rfl, hrest⟩ := List.cons.inj heq
      obtain ⟨rfl, hafter⟩ := ih (fun hmem => h (List.mem_cons_of_mem _ hmem))
        (fun hmem => h' (List.mem_cons_of_mem _ hmem)) hrest
      exact ⟨rfl, hafter⟩

theorem append_dot_inj {before before' after after' : List Char} (h : '.' ∉ after)
    (h' : '.' ∉ after') (heq : before ++ '.' :: after = before' ++ '.' :: after') :
    before = before' ∧ after = after' := by
  have hreversed := congrArg List.reverse heq
  simp only [List.reverse_append, List.reverse_cons, List.append_assoc, List.singleton_append]
    at hreversed
  obtain ⟨hafter, hbefore⟩ := cons_dot_inj (by simpa using h) (by simpa using h') hreversed
  exact ⟨List.reverse_injective hbefore, List.reverse_injective hafter⟩

theorem featureId_inj (hhex : ∀ modelHash params, '.' ∉ (digests.feature modelHash params).toList)
    {spec spec' : CatalogSpec F} {params params' : Dict F}
    (h : featureId digests spec params = featureId digests spec' params') :
    spec.name = spec'.name ∧ spec.version = spec'.version ∧
      digests.feature spec.modelHash (sortedItems params) =
        digests.feature spec'.modelHash (sortedItems params') := by
  have hlist : ∀ (s : CatalogSpec F) (p : Dict F), (featureId digests s p).toList =
      (s.name.toList ++ '.' :: 'v' :: (toString s.version).toList) ++
        '.' :: (digests.feature s.modelHash (sortedItems p)).toList := by
    intro s p
    simp [featureId, String.toList_append]
  have hplain : ∀ n : ℤ, '.' ∉ 'v' :: (toString n).toList := by
    intro n
    rw [toList_toString, List.mem_cons, List.mem_append]
    rintro (h | h | h)
    · cases h
    · split at h <;> simp at h
    · exact notMem_toDigits (by decide) _ h
  have hlists := congrArg String.toList h
  rw [hlist, hlist] at hlists
  obtain ⟨hbefore, hdigest⟩ := append_dot_inj (hhex _ _) (hhex _ _) hlists
  obtain ⟨hname, hversion⟩ := append_dot_inj (hplain _) (hplain _) hbefore
  exact ⟨String.toList_injective hname,
    toString_injective (String.toList_injective (List.cons.inj hversion).2),
    String.toList_injective hdigest⟩

theorem alike_of_featureId (hdigests : digests.Faithful calls) (hversioned : Versioned calls)
    (hearlier : earlier ∈ calls) (hcall : call ∈ calls) {id id' : String}
    (hid' : identify digests earlier = .ok (features', id'))
    (hid : identify digests call = .ok (features, id)) {f g : ResolvedFeature F}
    (hf : f ∈ features') (hg : g ∈ features) (h : f.featureId = g.featureId) : f.Alike g := by
  obtain ⟨⟨key, hkey⟩, hfid⟩ := (identify_ok hid').2.1 f hf
  obtain ⟨⟨key', hkey'⟩, hgid⟩ := (identify_ok hid).2.1 g hg
  obtain ⟨hname, hversion, hdigest⟩ := featureId_inj hdigests.hex (hfid.symm.trans (h.trans hgid))
  have hidentity := hdigests.feature ⟨earlier, hearlier, _, _, hid', f, hf, rfl⟩
    ⟨call, hcall, _, _, hid, g, hg, rfl⟩ hdigest
  obtain ⟨hmodel, hparams⟩ := Prod.mk.inj hidentity
  exact ⟨h, hversioned _ hearlier _ hcall key key' _ _ hkey hkey' hname hversion hmodel, hparams⟩

theorem mem_featureIds {request : MatrixRequest F} {id : String} :
    id ∈ (matrixCachePayload request features).features.map FeatureEntry.featureId ↔
      ∃ f ∈ features, f.featureId = id := by
  unfold matrixCachePayload
  simp only [List.mem_map, List.mem_mergeSort]
  constructor
  · rintro ⟨entry, ⟨f, hf, rfl⟩, hid⟩
    exact ⟨f, hf, hid⟩
  · rintro ⟨f, hf, hid⟩
    exact ⟨_, ⟨f, hf, rfl⟩, hid⟩

/-! ## What a call that is answered from the lake returns -/

/-- The bars of the symbols and the range of a call, as they were at an earlier call. -/
def SameBars (earlier call : Call F) : Prop :=
  ∀ symbol ∈ call.request.symbol :: call.request.exogenousSeries.map ExogenousSeriesConfig.symbol,
    ∀ timeframe,
      earlier.surroundings.readOhlcvFresh symbol timeframe call.request.start call.request.stop =
        call.surroundings.readOhlcvFresh symbol timeframe call.request.start call.request.stop

theorem isoZ_injOn {s t : Time} (hs : s % 1000000 = 0) (ht : t % 1000000 = 0)
    (h : isoZ s = isoZ t) : s = t := by
  have hseconds : s / 1000000 = t / 1000000 := h
  rw [← Int.mul_ediv_add_emod s 1000000, ← Int.mul_ediv_add_emod t 1000000, hs, ht, hseconds]

theorem foldlM_congr_mem {ε α β : Type} {f g : β → α → Except ε β} {as : List α} {b : β}
    (h : ∀ a ∈ as, ∀ b, f b a = g b a) : as.foldlM f b = as.foldlM g b := by
  induction as generalizing b with
  | nil => rfl
  | cons a as ih =>
    rw [List.foldlM_cons, List.foldlM_cons, h a List.mem_cons_self]
    exact bind_congr fun b => ih fun a ha => h a (List.mem_cons_of_mem _ ha)

/-- Calls with one payload read the same rows from the same bars. -/
theorem readRows_congr (hbars : SameBars earlier call)
    (hseconds : WholeSeconds [earlier, call])
    (hpayload : matrixCachePayload earlier.request features' =
      matrixCachePayload call.request features) : readRows engine earlier = readRows engine call := by
  obtain ⟨hstart', hstop'⟩ := hseconds earlier (by simp)
  obtain ⟨hstart, hstop⟩ := hseconds call (by simp)
  have hsymbol : earlier.request.symbol = call.request.symbol :=
    congrArg MatrixPayload.symbol hpayload
  have htimeframe : earlier.request.timeframe.toUpper = call.request.timeframe.toUpper :=
    congrArg MatrixPayload.timeframe hpayload
  have hfrom : earlier.request.start = call.request.start :=
    isoZ_injOn hstart' hstart (congrArg MatrixPayload.start hpayload)
  have hto : earlier.request.stop = call.request.stop :=
    isoZ_injOn hstop' hstop (congrArg MatrixPayload.stop hpayload)
  have hseries : earlier.request.exogenousSeries = call.request.exogenousSeries :=
    congrArg MatrixPayload.exogenousSeries hpayload
  unfold readRows
  dsimp only
  rw [hsymbol, htimeframe, hfrom, hto, hseries, hbars _ List.mem_cons_self]
  refine bind_congr fun bars => foldlM_congr_mem fun series hmem rows => ?_
  rw [hbars _ (List.mem_cons_of_mem _ (List.mem_map_of_mem hmem))]

theorem mem_computeColumns {rows : List (MatrixRow F)}
    {computed : List (ResolvedFeature F × ComputedFeature F)}
    (h : computeColumns engine rows features = .ok computed)
    {c : ResolvedFeature F × ComputedFeature F} :
    c ∈ computed ↔ c.1 ∈ features ∧
      engine.computeFeature rows c.1.spec (sortedItems c.1.params) = .ok c.2 := by
  unfold computeColumns at h
  rw [mem_of_mapM h]
  constructor
  · rintro ⟨f, hf, hc⟩
    obtain ⟨value, hvalue, hc⟩ := bind_eq_ok.mp hc
    cases pure_eq_ok.mp hc
    exact ⟨hf, hvalue⟩
  · rintro ⟨hf, hvalue⟩
    exact ⟨c.1, hf, bind_of_ok hvalue rfl⟩

theorem computeFeature_of_computeColumns {rows : List (MatrixRow F)}
    {computed : List (ResolvedFeature F × ComputedFeature F)}
    (h : computeColumns engine rows features = .ok computed) {f : ResolvedFeature F}
    (hf : f ∈ features) :
    ∃ value, engine.computeFeature rows f.spec (sortedItems f.params) = .ok value := by
  induction forall₂_of_mapM h with
  | nil => cases hf
  | cons hvalue hrest ih =>
    obtain rfl | hf := List.mem_cons.mp hf
    · obtain ⟨value, hvalue, -⟩ := bind_eq_ok.mp hvalue
      exact ⟨value, hvalue⟩
    · exact ih (mapM_eq_ok_of_forall₂ hrest) hf

/-- The columns of a matrix before they are put in order. -/
def columnsOf (computed : List (ResolvedFeature F × ComputedFeature F)) :
    List (String × List (Option F)) :=
  computed.map fun c => (c.1.featureId, c.2.values)

/-- A feature that is computed alike gives the same column. -/
theorem mem_columnsOf {rows : List (MatrixRow F)}
    {computed computed' : List (ResolvedFeature F × ComputedFeature F)}
    (h : computeColumns engine rows features = .ok computed)
    (h' : computeColumns engine rows features' = .ok computed')
    (halike : ∀ f ∈ features', ∃ g ∈ features, f.Alike g) {column : String × List (Option F)}
    (hcolumn : column ∈ columnsOf computed') : column ∈ columnsOf computed := by
  obtain ⟨c, hc, rfl⟩ := List.mem_map.mp hcolumn
  obtain ⟨hf, hvalue⟩ := (mem_computeColumns h').mp hc
  obtain ⟨g, hg, hsame⟩ := halike c.1 hf
  rw [hsame.spec, hsame.params] at hvalue
  exact List.mem_map.mpr ⟨(g, c.2), (mem_computeColumns h).mpr ⟨hg, hvalue⟩,
    Prod.ext hsame.featureId.symm rfl⟩

theorem noConflict_columnsOf {rows : List (MatrixRow F)}
    {computed : List (ResolvedFeature F × ComputedFeature F)}
    (h : computeColumns engine rows features = .ok computed)
    (halike : ∀ f ∈ features, ∀ g ∈ features, f.featureId = g.featureId → f.Alike g) :
    NoConflict Prod.fst (columnsOf computed) := by
  intro a ha b hb hid
  obtain ⟨c, hc, rfl⟩ := List.mem_map.mp ha
  obtain ⟨d, hd, rfl⟩ := List.mem_map.mp hb
  obtain ⟨hcf, hcv⟩ := (mem_computeColumns h).mp hc
  obtain ⟨hdf, hdv⟩ := (mem_computeColumns h).mp hd
  have hsame := halike c.1 hcf d.1 hdf hid
  rw [hsame.spec, hsame.params, hdv] at hcv
  exact Prod.ext hid (congrArg ComputedFeature.values (Except.ok.inj hcv).symm)

theorem mem_matrixFrame (rows : List (MatrixRow F))
    {computed : List (ResolvedFeature F × ComputedFeature F)}
    (hids : NoConflict Prod.fst (columnsOf computed)) (column : String × List (Option F)) :
    column ∈ (matrixFrame rows computed).columns ↔ column ∈ columnsOf computed := by
  obtain ⟨all, hall, hmem⟩ := hids.exists_ordered
  refine (mem_merge hall (by simp) fun c hc => (hmem c).mpr hc).trans ?_
  simp [columnsOf]

theorem matrixFrame_congr {rows : List (MatrixRow F)}
    {computed computed' : List (ResolvedFeature F × ComputedFeature F)}
    (hids : NoConflict Prod.fst (columnsOf computed))
    (hids' : NoConflict Prod.fst (columnsOf computed'))
    (hsame : ∀ column, column ∈ columnsOf computed ↔ column ∈ columnsOf computed') :
    matrixFrame rows computed = matrixFrame rows computed' := by
  have hcolumns : (matrixFrame rows computed).columns = (matrixFrame rows computed').columns := by
    apply (Ordered.merge List.Pairwise.nil).eq_of_mem_iff (Ordered.merge List.Pairwise.nil)
    intro column
    exact (mem_matrixFrame rows hids column).trans
      ((hsame column).trans (mem_matrixFrame rows hids' column).symm)
  exact congrArg (MatrixFrame.mk (rows.map fun row => row.bar.time)) hcolumns

theorem rebuild_frame (hdigests : digests.Faithful calls) (hversioned : Versioned calls)
    (hseconds : WholeSeconds calls) (hearlier : earlier ∈ calls) (hcall : call ∈ calls)
    (hid' : identify digests earlier = .ok (features', matrixId))
    (hid : identify digests call = .ok (features, matrixId)) (hbars : SameBars earlier call)
    (hstored : rebuild engine earlier features' matrixId = .ok stored) :
    stored.frame.columns ≠ [] ∧
      ∃ matrix, rebuild engine call features matrixId = .ok matrix ∧
        matrix.frame = stored.frame := by
  obtain ⟨hsome, -, hmatrix'⟩ := identify_ok hid'
  obtain ⟨-, -, hmatrix⟩ := identify_ok hid
  have hpayload := hdigests.matrix ⟨earlier, hearlier, _, _, hid', rfl⟩
    ⟨call, hcall, _, _, hid, rfl⟩ (hmatrix'.symm.trans hmatrix)
  have hrowsEq : readRows engine earlier = readRows engine call := by
    refine readRows_congr hbars (fun c hc => hseconds c ?_) hpayload
    simp only [List.mem_cons, List.not_mem_nil, or_false] at hc
    obtain rfl | rfl := hc <;> assumption
  have hids := congrArg (fun payload => payload.features.map FeatureEntry.featureId) hpayload
  have halike : ∀ f ∈ features', ∃ g ∈ features, f.Alike g := fun f hf => by
    obtain ⟨g, hg, hgid⟩ := mem_featureIds.mp (hids ▸ mem_featureIds.mpr ⟨f, hf, rfl⟩)
    exact ⟨g, hg, alike_of_featureId hdigests hversioned hearlier hcall hid' hid hf hg hgid.symm⟩
  have halike' : ∀ g ∈ features, ∃ f ∈ features', g.Alike f := fun g hg => by
    obtain ⟨f, hf, hfid⟩ := mem_featureIds.mp (hids.symm ▸ mem_featureIds.mpr ⟨g, hg, rfl⟩)
    exact ⟨f, hf, alike_of_featureId hdigests hversioned hcall hearlier hid hid' hg hf hfid.symm⟩
  obtain ⟨rows, hrows, hstored⟩ := bind_eq_ok.mp hstored
  obtain ⟨computed', hcomputed', hstored⟩ := bind_eq_ok.mp hstored
  cases pure_eq_ok.mp hstored
  obtain ⟨computed, hcomputed⟩ : ∃ computed, computeColumns engine rows features = .ok computed := by
    refine exists_mapM_ok fun g hg => ?_
    obtain ⟨f, hf, hsame⟩ := halike' g hg
    obtain ⟨value, hvalue⟩ := computeFeature_of_computeColumns hcomputed' hf
    rw [← hsame.spec, ← hsame.params] at hvalue
    exact ⟨_, bind_of_ok hvalue rfl⟩
  have hconflict := noConflict_columnsOf hcomputed fun f hf g hg hfg =>
    alike_of_featureId hdigests hversioned hcall hcall hid hid hf hg hfg
  have hconflict' := noConflict_columnsOf hcomputed' fun f hf g hg hfg =>
    alike_of_featureId hdigests hversioned hearlier hearlier hid' hid' hf hg hfg
  rw [hrowsEq] at hrows
  refine ⟨?_, _, bind_of_ok hrows (bind_of_ok hcomputed rfl),
    matrixFrame_congr hconflict hconflict' fun column =>
      ⟨mem_columnsOf hcomputed' hcomputed halike', mem_columnsOf hcomputed hcomputed' halike⟩⟩
  obtain ⟨f, hf⟩ := List.exists_mem_of_ne_nil _ hsome
  obtain ⟨value, hvalue⟩ := computeFeature_of_computeColumns hcomputed' hf
  exact List.ne_nil_of_mem ((mem_matrixFrame _ hconflict' _).mpr
    (List.mem_map.mpr ⟨(f, value), (mem_computeColumns hcomputed').mpr ⟨hf, hvalue⟩, rfl⟩))

/-- A call that is answered from the lake returns what an earlier call with its id has built; that
is what the call would build itself, unless the bars have changed since. -/
theorem cached_matrix (engine : Engine F) (digests : Digests F) {calls : List (Call F)}
    {call : Call F} (hdigests : digests.Faithful (call :: calls))
    (hversioned : Versioned (call :: calls)) (hseconds : WholeSeconds (call :: calls))
    {features : List (ResolvedFeature F)} {matrixId : String} {stored : FeatureMatrix F}
    (hid : identify digests call = .ok (features, matrixId))
    (hcache : call.request.useCache = true)
    (hstored : lakeAfter engine digests calls matrixId = some stored) :
    (buildFeatureMatrix engine digests (lakeAfter engine digests calls) call).1 =
        .ok (readFeatureMatrix stored) ∧
      ∃ earlier ∈ calls, ∃ features', identify digests earlier = .ok (features', matrixId) ∧
        rebuild engine earlier features' matrixId = .ok stored ∧
        (SameBars earlier call → stored.frame.times ≠ [] →
          ∃ matrix, rebuild engine call features matrixId = .ok matrix ∧
            matrix.frame = (readFeatureMatrix stored).frame) := by
  obtain ⟨earlier, hmem, features', hid', hbuilt⟩ :=
    built_lakeAfter engine digests calls matrixId stored hstored
  refine ⟨?_, earlier, hmem, features', hid', hbuilt, fun hbars htimes => ?_⟩
  · unfold buildFeatureMatrix
    simp only [hid, hcache, if_true, hstored]
  · obtain ⟨hcolumns, matrix, hmatrix, hframe⟩ := rebuild_frame hdigests hversioned hseconds
      (List.mem_cons_of_mem _ hmem) List.mem_cons_self hid' hid hbars hbuilt
    exact ⟨matrix, hmatrix, hframe.trans (if_neg (not_or.mpr ⟨htimes, hcolumns⟩)).symm⟩

end Build

/-! ## A bar that is corrected -/

/-- A catalog with the closing price as its only feature. -/
def closeSpec : CatalogSpec ℕ := ⟨"close", 1, false, none, [], []⟩

/-- The bar of the day closes at this price. -/
def closingAt (close : ℕ) : Surroundings ℕ where
  specs := fun name => if name = "close" then some closeSpec else none
  readOhlcvFresh := fun _ _ _ _ => .ok [⟨0, 1, 1, 1, close, 1⟩]
  now := 0

def closeEngine : Engine ℕ where
  attachSeries := fun _ _ rows _ => .ok rows
  computeFeature := fun rows _ _ => .ok ⟨rows.map fun row => some row.bar.close, 0, .clean⟩

def closeCall (symbol : String) (close : ℕ) : Call ℕ :=
  ⟨⟨symbol, "D1", 0, 1000000, [⟨"close", none, []⟩], true, []⟩, closingAt close⟩

/-- Digests of requests that differ in the symbol only. -/
def plainDigests : Digests ℕ := ⟨fun _ _ => "d", fun payload => payload.symbol⟩

def closeFeature : ResolvedFeature ℕ := ⟨closeSpec, [], "close.v1.d"⟩

def closeMatrix (close : ℕ) : FeatureMatrix ℕ where
  matrixId := "PETR4"
  frame := ⟨[0], [("close.v1.d", [some close])]⟩
  manifest := buildManifest (closeCall "PETR4" close) "PETR4" [⟨⟨0, 1, 1, 1, close, 1⟩, []⟩]
    [(closeFeature, ⟨[some close], 0, .clean⟩)]

theorem identify_closeCall (symbol : String) (close : ℕ) :
    identify plainDigests (closeCall symbol close) = .ok ([closeFeature], symbol) := rfl

theorem lakeAfter_closeCall (close : ℕ) :
    lakeAfter closeEngine plainDigests [closeCall "PETR4" close, closeCall "VALE3" close] "PETR4" =
      some (closeMatrix close) := by
  have hread : ∀ symbol, readRows closeEngine (closeCall symbol close) =
      .ok [⟨⟨0, 1, 1, 1, close, 1⟩, []⟩] := fun _ => rfl
  have hbuilt : ∀ (lake : Lake ℕ) symbol, lake symbol = none →
      ∃ matrix, rebuild closeEngine (closeCall symbol close) [closeFeature] symbol = .ok matrix ∧
      (buildFeatureMatrix closeEngine plainDigests lake (closeCall symbol close)).2 =
        Function.update lake symbol (some matrix) := by
    intro lake symbol hnone
    refine ⟨_, rfl, ?_⟩
    unfold buildFeatureMatrix
    simp only [identify_closeCall]
    rw [show (if (closeCall symbol close).request.useCache = true then lake symbol else none) =
      none from hnone]
    rfl
  obtain ⟨first, hfirst, hlake⟩ := hbuilt (fun _ => none) "PETR4" rfl
  obtain ⟨second, -, hlake'⟩ := hbuilt (Function.update (fun _ => none) "PETR4" (some first))
    "VALE3" rfl
  rw [lakeAfter, List.foldl_cons, List.foldl_cons, List.foldl_nil, hlake, hlake',
    Function.update_of_ne (by decide), Function.update_self]
  exact congrArg some (Except.ok.inj hfirst).symm

theorem faithful_closeCalls {calls : List (Call ℕ)}
    (hcalls : ∀ call ∈ calls, ∃ symbol close, call = closeCall symbol close) :
    plainDigests.Faithful calls where
  hex _ _ := (by decide : '.' ∉ "d".toList)
  feature := by
    rintro _ ⟨call, hcall, features, id, hid, f, hf, rfl⟩ _ ⟨call', hcall', features', id', hid',
      f', hf', rfl⟩ -
    obtain ⟨symbol, close, rfl⟩ := hcalls call hcall
    obtain ⟨symbol', close', rfl⟩ := hcalls call' hcall'
    cases hid
    cases hid'
    rw [List.mem_singleton.mp hf, List.mem_singleton.mp hf']
  matrix := by
    rintro _ ⟨call, hcall, features, id, hid, rfl⟩ _ ⟨call', hcall', features', id', hid', rfl⟩ h
    obtain ⟨symbol, close, rfl⟩ := hcalls call hcall
    obtain ⟨symbol', close', rfl⟩ := hcalls call' hcall'
    cases hid
    cases hid'
    obtain rfl : symbol = symbol' := h
    rfl

/-- The second call with the same bars returns what it would build, also after that of another
symbol. -/
theorem unchanged_bar_cached :
    (buildFeatureMatrix closeEngine plainDigests (lakeAfter closeEngine plainDigests
        [closeCall "PETR4" 10, closeCall "VALE3" 10]) (closeCall "PETR4" 10)).1 =
        .ok (readFeatureMatrix (closeMatrix 10)) ∧
      ∃ matrix, rebuild closeEngine (closeCall "PETR4" 10) [closeFeature] "PETR4" = .ok matrix ∧
        matrix.frame = (readFeatureMatrix (closeMatrix 10)).frame := by
  have hcalls : ∀ call ∈ [closeCall "PETR4" 10, closeCall "PETR4" 10, closeCall "VALE3" 10],
      ∃ symbol close, call = closeCall symbol close := by simp
  have hversioned :
      Versioned [closeCall "PETR4" 10, closeCall "PETR4" 10, closeCall "VALE3" 10] := by
    intro call hcall earlier hearlier key key' spec spec' hspec hspec' _ _ _
    obtain ⟨symbol, close, rfl⟩ := hcalls call hcall
    obtain ⟨symbol', close', rfl⟩ := hcalls earlier hearlier
    obtain ⟨-, hspec⟩ := Option.ite_none_right_eq_some.mp hspec
    obtain ⟨-, hspec'⟩ := Option.ite_none_right_eq_some.mp hspec'
    exact (Option.some.inj hspec).symm.trans (Option.some.inj hspec')
  have hseconds :
      WholeSeconds [closeCall "PETR4" 10, closeCall "PETR4" 10, closeCall "VALE3" 10] := by
    intro call hcall
    obtain ⟨symbol, close, rfl⟩ := hcalls call hcall
    exact ⟨rfl, rfl⟩
  obtain ⟨hanswer, earlier, hmem, features', hid, -, hsame⟩ := cached_matrix closeEngine
    plainDigests (faithful_closeCalls hcalls) hversioned hseconds (identify_closeCall "PETR4" 10) rfl
    (lakeAfter_closeCall 10)
  obtain ⟨symbol, close, rfl⟩ := hcalls earlier (List.mem_cons_of_mem _ hmem)
  have hbars : SameBars (closeCall symbol close) (closeCall "PETR4" 10) := by
    intro _ _ timeframe
    obtain hcall | hcall := List.mem_cons.mp hmem
    · rw [hcall]
    · rw [List.mem_singleton.mp hcall]
      rfl
  exact ⟨hanswer, hsame hbars (by simp [closeMatrix])⟩

/-- After the close is corrected the call still returns the matrix of the first close. -/
theorem corrected_bar_stale :
    identify plainDigests (closeCall "PETR4" 20) = .ok ([closeFeature], "PETR4") ∧
      (buildFeatureMatrix closeEngine plainDigests
          (lakeAfter closeEngine plainDigests [closeCall "PETR4" 10])
          (closeCall "PETR4" 20)).1.toOption.map FeatureMatrix.frame ≠
        (rebuild closeEngine (closeCall "PETR4" 20) [closeFeature] "PETR4").toOption.map
          FeatureMatrix.frame := by
  refine ⟨rfl, ?_⟩
  decide +kernel

end QBackend.FeatureMatrices
