import QBackend.CompositeStrategy

/-!
# The series cache

What a node writes, what is kept of it and what is put back. On the frame that a series was
computed on, putting it back is the same as computing it. The loop of the strategy is the cached
run of `MemoRuns` as long as the latent columns are those of the frame.
-/

namespace QBackend.GenomeDsl

open FallibleSteps MemoRuns

/-! ## Compiled nodes -/

section Compiled

variable {genome : Genome} {trial : TrialParams}

theorem getKey_eq_ok {α : Type} {entries : List (String × α)} {key : String} {a : α} :
    getKey entries key = .ok a ↔ entries.lookup key = some a := by
  unfold getKey
  cases entries.lookup key with
  | none => simp
  | some b => simp

theorem mem_of_getKey {α : Type} {entries : List (String × α)} {key : String} {a : α}
    (h : getKey entries key = .ok a) : (key, a) ∈ entries := by
  obtain ⟨l₁, l₂, rfl, -⟩ := List.lookup_eq_some_iff.mp (getKey_eq_ok.mp h)
  simp

theorem getNode_eq_ok {id : String} {node : GenomeNode} :
    genome.getNode id = .ok node ↔ genome.node? id = some node := by
  unfold Genome.getNode
  cases genome.node? id with
  | none => simp
  | some n => simp

/-- A compiled node, seen through the compiled nodes of its inputs. -/
structure CompiledFrom (genome : Genome) (trial : TrialParams) (fuel : ℕ) (id : String)
    (compiled : CompiledNode) : Prop where
  node : genome.node? id = some compiled.node
  params : compiled.resolvedParams = resolveNodeParams trial compiled.node
  columns : compiled.columnByPort = columnByPort compiled.node
  inputs : ∃ parents : List CompiledNode,
    List.Forall₂ (fun raw parent => compileNode genome trial fuel (parseInputRef raw).1 = .ok parent)
      compiled.node.inputs parents ∧
    List.Forall₂ (fun raw binding => binding.nodeId = (parseInputRef raw).1 ∧
      binding.port = (parseInputRef raw).2) compiled.node.inputs compiled.inputBindings ∧
    List.Forall₂ (fun parent (binding : InputBinding) =>
      parent.columnByPort.lookup binding.port = some binding.column) parents
      compiled.inputBindings ∧
    compiled.cacheKey = .mk compiled.node.kind compiled.resolvedParams
      (parents.map CompiledNode.cacheKey)

/-- The bindings and keys that the loop over the inputs collects. -/
theorem compileInputs_ok {fuel : ℕ} {raws : List String} {inputs : List (InputBinding × CacheKey)}
    (h : raws.mapM (fun raw => do
      let parent ← compileNode genome trial fuel (parseInputRef raw).1
      let column ← getKey parent.columnByPort (parseInputRef raw).2
      pure (InputBinding.mk (parseInputRef raw).1 (parseInputRef raw).2 column,
        parent.cacheKey)) = .ok inputs) :
    ∃ parents : List CompiledNode,
      List.Forall₂ (fun raw parent =>
        compileNode genome trial fuel (parseInputRef raw).1 = .ok parent) raws parents ∧
      List.Forall₂ (fun raw binding => binding.nodeId = (parseInputRef raw).1 ∧
        binding.port = (parseInputRef raw).2) raws (inputs.map Prod.fst) ∧
      List.Forall₂ (fun parent (binding : InputBinding) =>
        parent.columnByPort.lookup binding.port = some binding.column) parents
        (inputs.map Prod.fst) ∧
      inputs.map Prod.snd = parents.map CompiledNode.cacheKey := by
  have hall := forall₂_of_mapM h
  clear h
  induction hall with
  | nil => exact ⟨[], .nil, .nil, .nil, rfl⟩
  | @cons raw input raws inputs hstep _ ih =>
    obtain ⟨parents, hp, hb, hc, hk⟩ := ih
    rw [bind_eq_ok] at hstep
    obtain ⟨parent, hparent, hstep⟩ := hstep
    rw [bind_eq_ok] at hstep
    obtain ⟨column, hcolumn, hstep⟩ := hstep
    rw [pure_eq_ok] at hstep
    subst hstep
    refine ⟨parent :: parents, .cons hparent hp, .cons ⟨rfl, rfl⟩ hb,
      .cons (getKey_eq_ok.mp hcolumn) hc, ?_⟩
    simp [hk]

theorem compileNode_spec {fuel : ℕ} {id : String} {compiled : CompiledNode}
    (h : compileNode genome trial (fuel + 1) id = .ok compiled) :
    CompiledFrom genome trial fuel id compiled := by
  simp only [compileNode, bind_eq_ok, pure_eq_ok] at h
  obtain ⟨node, hnode, inputs, hinputs, rfl⟩ := h
  obtain ⟨parents, hp, hb, hc, hk⟩ := compileInputs_ok (by simpa only [bind_eq_ok] using hinputs)
  exact ⟨getNode_eq_ok.mp hnode, rfl, rfl, parents, hp, hb, hc, by simp [hk]⟩

theorem compileNode_mono {fuel : ℕ} {id : String} {compiled : CompiledNode}
    (h : compileNode genome trial fuel id = .ok compiled) :
    compileNode genome trial (fuel + 1) id = .ok compiled := by
  induction fuel generalizing id compiled with
  | zero => cases h
  | succ fuel ih =>
    simp only [compileNode, bind_eq_ok, pure_eq_ok] at h
    obtain ⟨node, hnode, inputs, hinputs, rfl⟩ := h
    rw [compileNode, hnode]
    have hall := forall₂_of_mapM hinputs
    have hmore : node.inputs.mapM (fun raw => do
        let parent ← compileNode genome trial (fuel + 1) (parseInputRef raw).1
        let column ← getKey parent.columnByPort (parseInputRef raw).2
        pure (InputBinding.mk (parseInputRef raw).1 (parseInputRef raw).2 column,
          parent.cacheKey)) = .ok inputs := by
      refine mapM_eq_ok_of_forall₂ (hall.imp fun raw input hraw => ?_)
      obtain ⟨parent, hparent, hrest⟩ := bind_eq_ok.mp hraw
      exact bind_eq_ok.mpr ⟨parent, ih hparent, hrest⟩
    refine bind_eq_ok.mpr ⟨node, rfl, bind_eq_ok.mpr ⟨inputs, hmore, rfl⟩⟩

theorem compileNode_mono_le {fuel fuel' : ℕ} (hle : fuel ≤ fuel') {id : String}
    {compiled : CompiledNode} (h : compileNode genome trial fuel id = .ok compiled) :
    compileNode genome trial fuel' id = .ok compiled := by
  induction hle with
  | refl => exact h
  | step _ ih => exact compileNode_mono ih

theorem compileById_spec {id : String} {compiled : CompiledNode}
    (h : compileById genome trial id = .ok compiled) :
    ∃ fuel, fuel + 1 = genome.nodes.length ∧ CompiledFrom genome trial fuel id compiled := by
  unfold compileById at h
  cases hlen : genome.nodes.length with
  | zero =>
    rw [hlen] at h
    cases h
  | succ fuel =>
    rw [hlen] at h
    exact ⟨fuel, rfl, compileNode_spec h⟩

theorem compileById_id {id : String} {compiled : CompiledNode}
    (h : compileById genome trial id = .ok compiled) :
    compiled.node ∈ genome.nodes ∧ compiled.node.id = id := by
  obtain ⟨fuel, -, hfrom⟩ := compileById_spec h
  exact ⟨KeyedTables.mem_of_lookup hfrom.node, KeyedTables.key_of_lookup hfrom.node⟩

theorem compileById_columns {id : String} {compiled : CompiledNode}
    (h : compileById genome trial id = .ok compiled) :
    compiled.columnByPort = columnByPort compiled.node := by
  obtain ⟨fuel, -, hfrom⟩ := compileById_spec h
  exact hfrom.columns

theorem ports_nodup (kind : NodeKind) : ((nodeSpec kind).ports.map Prod.fst).Nodup := by
  cases kind <;> decide

theorem columnByPort_ports_nodup (node : GenomeNode) :
    ((columnByPort node).map Prod.fst).Nodup := by
  have hports : (columnByPort node).map Prod.fst = (nodeSpec node.kind).ports.map Prod.fst := by
    simp only [columnByPort, List.map_map]
    rfl
  rw [hports]
  exact ports_nodup node.kind

end Compiled

/-! ## Columns written and put back -/

section Columns

variable {F : Type} [PriceFloat F] {df df' : DataFrame F} {compiled : CompiledNode}

omit [PriceFloat F] in
theorem readColumn_eq_ok {column : String} {c : Column F} :
    readColumn df column = .ok c ↔ df column = some c := by
  unfold readColumn
  cases df column with
  | none => simp
  | some b => simp

@[simp] theorem reindex_self (times : List Execution.Time) (c : Column F) :
    reindex times times c = c := by
  cases c with
  | numbers xs => simp [reindex]
  | bools bs => simp [reindex]

omit [PriceFloat F] in
theorem writeOutputs_frame {outputs : Outputs F} (h : writeOutputs compiled df outputs = .ok df')
    {column : String} (hc : column ∉ compiled.columnByPort.map Prod.snd) :
    df' column = df column := by
  refine foldlM_invariant (fun d => d column = df column) ?_ rfl h
  intro d output d' _ hd hstep
  rw [bind_eq_ok] at hstep
  obtain ⟨target, htarget, hstep⟩ := hstep
  rw [pure_eq_ok] at hstep
  have hmem : target ∈ compiled.columnByPort.map Prod.snd :=
    List.mem_map.mpr ⟨(output.1, target), mem_of_getKey htarget, rfl⟩
  have hne : column ≠ target := fun heq => hc (heq ▸ hmem)
  rw [← hstep, writeColumn, Function.update_of_ne hne]
  exact hd

omit [PriceFloat F] in
theorem captured_columns {entries : List (String × String)} {columns : List (String × Column F)}
    (hnd : (entries.map Prod.fst).Nodup)
    (h : entries.mapM (fun entry => do
      let column ← readColumn df entry.2
      pure (entry.1, column)) = .ok columns) :
    ∀ entry ∈ entries, ∃ c, columns.lookup entry.1 = some c ∧ df entry.2 = some c := by
  have hall := forall₂_of_mapM h
  clear h
  induction hall with
  | nil => intro entry hentry; cases hentry
  | @cons first column entries columns hstep _ ih =>
    obtain ⟨hfirst, hnd⟩ := List.nodup_cons.mp hnd
    rw [bind_eq_ok] at hstep
    obtain ⟨c, hc, hstep⟩ := hstep
    rw [pure_eq_ok] at hstep
    subst hstep
    intro entry hentry
    rcases List.mem_cons.mp hentry with rfl | hentry
    · exact ⟨c, List.lookup_cons_self, readColumn_eq_ok.mp hc⟩
    · obtain ⟨d, hd, hread⟩ := ih hnd entry hentry
      have hne : entry.1 ≠ first.1 := fun heq =>
        hfirst (heq ▸ List.mem_map_of_mem hentry)
      exact ⟨d, by rw [lookup_cons_of_ne _ _ hne]; exact hd, hread⟩

theorem restore_columns {times : List Execution.Time} {entries : List (String × String)}
    {columns : List (String × Column F)}
    (h : ∀ entry ∈ entries, ∃ c, columns.lookup entry.1 = some c ∧ df' entry.2 = some c) :
    entries.foldlM (fun df entry => do
      let column ← getKey columns entry.1
      pure (writeColumn df entry.2 (reindex times times column))) df =
      (.ok fun column => if column ∈ entries.map Prod.snd then df' column else df column :
        Except Failure (DataFrame F)) := by
  induction entries generalizing df with
  | nil => simp [pure, Except.pure]
  | cons entry entries ih =>
    obtain ⟨c, hc, hread⟩ := h entry (by simp)
    have hstep : (do
        let column ← getKey columns entry.1
        pure (writeColumn df entry.2 (reindex times times column)) : Except Failure _) =
        .ok (writeColumn df entry.2 c) := by
      rw [getKey_eq_ok.mpr hc]
      show Except.ok (writeColumn df entry.2 (reindex times times c)) = _
      rw [reindex_self]
    rw [List.foldlM_cons, hstep]
    show entries.foldlM _ (writeColumn df entry.2 c) = _
    rw [ih fun e he => h e (List.mem_cons_of_mem entry he)]
    congr 1
    funext column
    by_cases hmem : column ∈ entries.map Prod.snd
    · simp [hmem]
    · by_cases heq : column = entry.2
      · subst heq
        simp [hmem, writeColumn, hread]
      · simp [hmem, heq, writeColumn]

theorem nodeMemo_restores (frame : Frame F) (latents : Option (Latents F))
    (hcols : compiled.columnByPort = columnByPort compiled.node) :
    (nodeMemo frame latents).Restores compiled := by
  intro env env' v hcompute hcapture
  have hnd : (compiled.columnByPort.map Prod.fst).Nodup := by
    rw [hcols]
    exact columnByPort_ports_nodup compiled.node
  simp only [nodeMemo, captureSeries, bind_eq_ok, pure_eq_ok] at hcapture
  obtain ⟨columns, hcolumns, rfl⟩ := hcapture
  have hkept := captured_columns hnd (by simpa only [bind_eq_ok] using hcolumns)
  simp only [nodeMemo, evaluateNode, bind_eq_ok] at hcompute
  obtain ⟨inputs, -, outputs, -, hwrite⟩ := hcompute
  show restoreSeries frame env compiled ⟨frame.times, columns⟩ = .ok env'
  unfold restoreSeries
  rw [restore_columns hkept]
  congr 1
  funext column
  by_cases hmem : column ∈ compiled.columnByPort.map Prod.snd
  · simp [hmem]
  · rw [if_neg hmem, writeOutputs_frame hwrite hmem]

end Columns

/-! ## Latent columns of the frame -/

section Latents

variable {F : Type} [PriceFloat F]

/-- The latent columns that belong to the frame. -/
def latentsOf (strategy : Strategy F) (frame : Frame F) : Option (Latents F) :=
  strategy.latentModel.map fun model =>
    ⟨model.encode frame, oosWarmupBars frame.times model.trainEnd⟩

/-- If the genome has a latent node, a latent frame that the process keeps under the number of bars
with the first and the last time of the frame is that of the frame. -/
def Served (strategy : Strategy F) (frame : Frame F) (outputs : LatentOutputs F) : Prop :=
  (∃ node ∈ strategy.genome.nodes, node.kind = .indLatent) → ∀ model ∈ strategy.latentModel,
    ∀ latents, outputs.lookup frame.barsRange = some latents → latents = model.encode frame

/-- What the state keeps of latent columns is of this frame. -/
def LatentsCurrent (strategy : Strategy F) (frame : Frame F) (s : CompositeState F) : Prop :=
  Served strategy frame s.outputs ∧ ∀ model, strategy.latentModel = some model →
    (s.latentFrame = none ∨ s.latentFrame = some (frame.rows.length, model.encode frame)) ∧
    (s.latentWarmup = none ∨ s.latentWarmup = some (oosWarmupBars frame.times model.trainEnd))

theorem evaluateKind_latents (frame : Frame F) (l₁ l₂ : Option (Latents F)) {kind : NodeKind}
    (h : kind ≠ .indLatent) (params : Params) (inputs : List (Column F)) :
    evaluateKind frame l₁ kind params inputs = evaluateKind frame l₂ kind params inputs := by
  cases kind <;> first | rfl | exact absurd rfl h

variable {strategy : Strategy F} {frame : Frame F} {s : CompositeState F}

theorem latentFrameFor_eq {model : LatentModel F} (hm : strategy.latentModel = some model)
    (hnode : ∃ node ∈ strategy.genome.nodes, node.kind = .indLatent)
    (h : Served strategy frame s.outputs) :
    ∃ outputs, Served strategy frame outputs ∧ s.latentFrameFor model frame =
      { s with latentFrame := some (frame.rows.length, model.encode frame)
               latentWarmup := none, outputs } := by
  unfold CompositeState.latentFrameFor
  split
  next latents hfound =>
    obtain rfl := h hnode model hm latents hfound
    exact ⟨_, fun hn m hm' l hl => h hn m hm' l (KeyedCaches.Recent.lookup_moveToEnd hl), rfl⟩
  next =>
    refine ⟨_, fun hn m hm' l hl => ?_, rfl⟩
    obtain rfl := Option.some.inj (hm'.symm.trans hm)
    obtain ⟨-, rfl⟩ | ⟨-, hl⟩ := KeyedCaches.Recent.lookup_put hl
    · rfl
    · exact h hn m hm l hl

theorem fetchLatents_eq {model : LatentModel F} (hm : strategy.latentModel = some model)
    (hnode : ∃ node ∈ strategy.genome.nodes, node.kind = .indLatent)
    (h : LatentsCurrent strategy frame s) :
    ∃ outputs, Served strategy frame outputs ∧ s.fetchLatents model frame =
      { s with latentFrame := some (frame.rows.length, model.encode frame)
               latentWarmup := some (oosWarmupBars frame.times model.trainEnd), outputs } := by
  obtain ⟨hserved, hcurrent⟩ := h
  obtain ⟨hframe, hwarm⟩ := hcurrent model hm
  rcases hframe with hf | hf
  · obtain ⟨outputs, houtputs, heq⟩ := latentFrameFor_eq hm hnode hserved
    exact ⟨outputs, houtputs, by simp [CompositeState.fetchLatents, hf, heq]⟩
  · refine ⟨s.outputs, hserved, ?_⟩
    rcases hwarm with hw | hw
    · simp [CompositeState.fetchLatents, hf, hw]
    · have hs : s = { s with
          latentFrame := some (frame.rows.length, model.encode frame)
          latentWarmup := some (oosWarmupBars frame.times model.trainEnd) } := by
        rw [← hf, ← hw]
      have hstay : s.fetchLatents model frame = s := by
        unfold CompositeState.fetchLatents
        simp [hf, hw]
      exact hstay.trans hs

/-- The step of the strategy is that of the cached run with the latent columns of the frame. -/
theorem visitNode_eq (h : LatentsCurrent strategy frame s) (df : DataFrame F)
    {compiled : CompiledNode} (hmem : compiled.node ∈ strategy.genome.nodes) :
    (visitNode strategy frame s df compiled).1 =
        ((nodeMemo frame (latentsOf strategy frame)).step s.seriesCache df compiled).1 ∧
      (visitNode strategy frame s df compiled).2.seriesCache =
        ((nodeMemo frame (latentsOf strategy frame)).step s.seriesCache df compiled).2 ∧
      LatentsCurrent strategy frame (visitNode strategy frame s df compiled).2 ∧
      (visitNode strategy frame s df compiled).2.lastDataLen = s.lastDataLen := by
  have hsame : ∀ l, compiled.node.kind ≠ .indLatent ∨
      (s.seriesCache.lookup compiled.cacheKey).isSome →
      (nodeMemo frame l).step s.seriesCache df compiled =
        (nodeMemo frame (latentsOf strategy frame)).step s.seriesCache df compiled := by
    intro l hl
    rcases hl with hl | hl
    · have hcompute : evaluateNode frame l df compiled =
          evaluateNode frame (latentsOf strategy frame) df compiled := by
        unfold evaluateNode
        simp only [evaluateKind_latents frame l (latentsOf strategy frame) hl]
      unfold Memo.step
      simp only [nodeMemo]
      rw [hcompute]
      rfl
    · obtain ⟨v, hv⟩ := Option.isSome_iff_exists.mp hl
      simp only [Memo.step, nodeMemo, hv]
  cases hm : strategy.latentModel with
  | none =>
    have hl : s.latents strategy = latentsOf strategy frame := by
      simp [CompositeState.latents, latentsOf, hm]
    simp only [visitNode, hm, hl]
    exact ⟨trivial, trivial, h, trivial⟩
  | some model =>
    by_cases hfetch : compiled.node.kind = .indLatent ∧
        (s.seriesCache.lookup compiled.cacheKey).isNone
    · obtain ⟨outputs, houtputs, heq⟩ := fetchLatents_eq hm ⟨_, hmem, hfetch.1⟩ h
      have hl : ({ s with
          latentFrame := some (frame.rows.length, model.encode frame)
          latentWarmup := some (oosWarmupBars frame.times model.trainEnd), outputs } :
            CompositeState F).latents strategy = latentsOf strategy frame := by
        simp [CompositeState.latents, latentsOf, hm]
      simp only [visitNode, hm, if_pos hfetch, heq, hl]
      refine ⟨trivial, trivial, ⟨houtputs, fun m hm' => ?_⟩, trivial⟩
      have hmm : m = model := Option.some.inj (hm'.symm.trans hm)
      subst hmm
      exact ⟨.inr rfl, .inr rfl⟩
    · have hcase : compiled.node.kind ≠ .indLatent ∨
          (s.seriesCache.lookup compiled.cacheKey).isSome := by
        by_cases hk : compiled.node.kind = .indLatent
        · right
          cases hv : s.seriesCache.lookup compiled.cacheKey with
          | none => exact absurd ⟨hk, by simp [hv]⟩ hfetch
          | some v => rfl
        · exact .inl hk
      simp only [visitNode, hm, if_neg hfetch, hsame _ hcase]
      exact ⟨trivial, trivial, h, trivial⟩

theorem visitNodes_eq (h : LatentsCurrent strategy frame s) (df : DataFrame F)
    {nodes : List CompiledNode} (hnodes : ∀ c ∈ nodes, c.node ∈ strategy.genome.nodes) :
    (visitNodes strategy frame nodes s df).1 =
        ((nodeMemo frame (latentsOf strategy frame)).run s.seriesCache df nodes).1 ∧
      (visitNodes strategy frame nodes s df).2.seriesCache =
        ((nodeMemo frame (latentsOf strategy frame)).run s.seriesCache df nodes).2 ∧
      LatentsCurrent strategy frame (visitNodes strategy frame nodes s df).2 ∧
      (visitNodes strategy frame nodes s df).2.lastDataLen = s.lastDataLen := by
  induction nodes generalizing s df with
  | nil => exact ⟨rfl, rfl, h, rfl⟩
  | cons compiled rest ih =>
    obtain ⟨hmem, hrest⟩ := List.forall_mem_cons.mp hnodes
    obtain ⟨h₁, h₂, h₃, h₄⟩ := visitNode_eq h df hmem
    simp only [visitNodes, Memo.run]
    rcases hv : visitNode strategy frame s df compiled with ⟨r, s'⟩
    rcases hs : (nodeMemo frame (latentsOf strategy frame)).step s.seriesCache df compiled
      with ⟨r', cache'⟩
    rw [hv] at h₁ h₂ h₃ h₄
    rw [hs] at h₁ h₂
    simp only at h₁ h₂ h₃ h₄
    subst h₁
    subst h₂
    cases r with
    | error e => exact ⟨rfl, rfl, h₃, h₄⟩
    | ok df' =>
      obtain ⟨i₁, i₂, i₃, i₄⟩ := ih h₃ df' hrest
      exact ⟨i₁, i₂, i₃, i₄.trans h₄⟩

end Latents

end QBackend.GenomeDsl
