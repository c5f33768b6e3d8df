import QBackend.AcceptedRuns
import QBackend.StrategyCausality

/-!
# The meaning of a genome

A genome read as it stands: its nodes in topological order, each from the values of the nodes and
ports that its inputs name, and the signals from the values that the references of the genome name.
What a strategy computes through the compiler, the columns and the series cache is this meaning,
where names are not ambiguous.
-/

namespace QBackend.RegisteredStrategies

open GenomeDsl CausalSeries PriceFloat FallibleSteps MemoRuns
open Execution (Time Trade Signal ExecutionSide)

variable {F : Type} [PriceFloat F]

/-! ## Denotation -/

/-- The column of a node and port. -/
def readPort (values : Values F) (port : String × String) : Except Failure (Column F) :=
  match values port.1 port.2 with
  | some column => .ok column
  | none => .error (.keyError (columnName port.1 port.2))

/-- A node from the values of its inputs, added to the values. -/
def evaluateInto (trial : TrialParams) (frame : Frame F) (latents : Option (Latents F))
    (values : Values F) (node : GenomeNode) : Except Failure (Values F) := do
  let inputs ← node.inputs.mapM fun raw => readPort values (parseInputRef raw)
  let outputs ← evaluateKind frame latents node.kind (resolveNodeParams trial node) inputs
  pure (Function.update values node.id fun port => outputs.lookup port)

/-- The values of all nodes and ports. -/
def evaluateGenome (genome : Genome) (trial : TrialParams) (frame : Frame F)
    (latents : Option (Latents F)) : Except Failure (Values F) :=
  genome.sortedNodes.foldlM (evaluateInto trial frame latents) fun _ _ => none

def Genome.entryRef (genome : Genome) : Side → String
  | .long => genome.entryLong
  | .short => genome.entryShort

def otherSide : Side → Side
  | .long => .short
  | .short => .long

/-- The node and port whose column closes the trades of the side. A middle band as the exit of the
longs closes both sides. -/
def exitSource (genome : Genome) (side : Side) : Option (String × String) :=
  if (genome.exitNode? .long).map GenomeNode.kind = some .exitMiddleBand then
    some ((parseInputRef genome.exitLong).1, if side = .long then "exit_long" else "exit_short")
  else match (genome.exitNode? side).map GenomeNode.kind with
    | some .exitFixedHolding | some .exitRebalance | some .exitMiddleBand => none
    | some .exitOppositeSignal => some (parseInputRef (Genome.entryRef genome (otherSide side)))
    | _ => some (parseInputRef (genome.exitRef side))

def readSource (values : Values F) (source : Option (String × String)) :
    Except Failure (Option (List Bool)) :=
  match source with
  | some port => (readPort values port).map fun column => some column.signals
  | none => .ok none

/-! ## Answers -/

/-- What a strategy says of a frame: its entries and its exits at each bar. -/
structure Answers (F : Type) where
  entries : String → ℕ → List (EntrySignal F)
  exits : String → ℕ → List Trade → List Signal

/-- The answers from the signals and the one holding period. -/
def answersOf (holding : Option ℤ) (times : List Time) (entryLong entryShort : List Bool)
    (exitLong exitShort : Option (List Bool)) : Answers F where
  entries symbol bar :=
    enterOn symbol (signalAt (some entryLong) bar) (signalAt (some entryShort) bar) one
  exits symbol bar openTrades :=
    match holding with
    | some holdingPeriod => fixedHoldingPeriodExits times symbol holdingPeriod bar openTrades
    | none =>
      openTrades.filterMap (sideExit symbol (signalAt exitLong bar) (signalAt exitShort bar))

/-- The answers from the values of the nodes. -/
def answersFrom (genome : Genome) (trial : TrialParams) (times : List Time) (values : Values F) :
    Except Failure (Answers F) := do
  let entryLong ← readPort values (parseInputRef genome.entryLong)
  let entryShort ← readPort values (parseInputRef genome.entryShort)
  let exitLong ← readSource values (exitSource genome .long)
  let exitShort ← readSource values (exitSource genome .short)
  pure (answersOf (heldFor genome trial) times entryLong.signals entryShort.signals exitLong
    exitShort)

/-- What the genome says of a frame. -/
def genomeAnswers (genome : Genome) (trial : TrialParams) (frame : Frame F)
    (latents : Option (Latents F)) : Except Failure (Answers F) :=
  evaluateGenome genome trial frame latents >>= answersFrom genome trial frame.times

/-- `check_entry_conditions` of a composite strategy. -/
def compositeEntries (indicators : Indicators F) (symbol : String) (bar : ℕ) :
    List (EntrySignal F) :=
  enterOn symbol (signalAt (some indicators.entryLongSignal) bar)
    (signalAt (some indicators.entryShortSignal) bar) one

def compositeAnswers (strategy : Strategy F) (frame : Frame F) : Except Failure (Answers F) := do
  let plan ← strategy.plan
  let indicators ← freshIndicators strategy frame
  pure ⟨compositeEntries indicators, checkExitConditions plan indicators frame.times⟩

/-! ## Signals from direct evaluation -/

/-- The signals without the columns of the nodes. -/
def signalsOnly (indicators : Indicators F) : Indicators F :=
  { indicators with columns := fun _ => none }

/-- The values of the nodes under the names of their columns. -/
def valueColumns (genome : Genome) (values : Values F) : DataFrame F := fun column =>
  ((genome.nodes.flatMap fun node => (nodePorts node).map fun port =>
    (columnName node.id port, values node.id port)).lookup column).join

theorem lookup_of_forall {α : Type} {entries : List (String × α)} {key : String} {a : α}
    (hmem : ∃ entry ∈ entries, entry.1 = key)
    (hall : ∀ entry ∈ entries, entry.1 = key → entry.2 = a) : entries.lookup key = some a := by
  induction entries with
  | nil =>
    obtain ⟨entry, hentry, -⟩ := hmem
    cases hentry
  | cons entry entries ih =>
    by_cases hkey : key = entry.1
    · subst hkey
      rw [List.lookup_cons_self, hall entry (by simp) rfl]
    · rw [lookup_cons_of_ne _ _ hkey]
      obtain ⟨e, he, heq⟩ := hmem
      refine ih ⟨e, (List.mem_cons.mp he).resolve_left ?_, heq⟩
        fun e he => hall e (List.mem_cons_of_mem entry he)
      rintro rfl
      exact hkey heq.symm

omit [PriceFloat F] in
theorem valueColumns_eq {genome : Genome} (hcolumns : ColumnsSeparated genome) (values : Values F)
    {node : GenomeNode} (hnode : node ∈ genome.nodes) {port : String}
    (hport : port ∈ nodePorts node) :
    valueColumns genome values (columnName node.id port) = values node.id port := by
  unfold valueColumns
  rw [lookup_of_forall (a := values node.id port)]
  · rfl
  · exact ⟨_, List.mem_flatMap.mpr ⟨node, hnode, List.mem_map_of_mem hport⟩, rfl⟩
  · intro entry hentry hkey
    obtain ⟨node', hnode', hentry⟩ := List.mem_flatMap.mp hentry
    obtain ⟨port', hport', rfl⟩ := List.mem_map.mp hentry
    obtain ⟨hid, rfl⟩ := hcolumns node' hnode' node hnode port' hport' port hport hkey
    rw [hid]

theorem assembleSignals_eq (plan : ExecutionPlan) (df : DataFrame F) :
    assembleSignals plan df = (do
      let entryLong ← readSignal df plan.entryLongColumn
      let entryShort ← readSignal df plan.entryShortColumn
      let exitLong ← readExitSignal df (plan.exitColumn .long)
      let exitShort ← readExitSignal df (plan.exitColumn .short)
      pure ⟨df, entryLong, entryShort, exitLong, exitShort⟩) := by
  unfold assembleSignals ExecutionPlan.exitColumn
  cases plan.exitLong.policy <;> cases plan.exitLong.middleColumns <;> rfl

/-- The column of an exit is one of those that the plan reads. -/
theorem readsFrom_exitColumn {plan : ExecutionPlan} {columns : List String}
    (hreads : plan.ReadsFrom columns) (side : Side) :
    ∀ column ∈ plan.exitColumn side, column ∈ columns := by
  intro column hcolumn
  cases side with
  | long =>
    simp only [ExecutionPlan.exitColumn] at hcolumn
    split at hcolumn
    next long short _ hmiddle =>
      rw [← Option.some.inj hcolumn]
      exact (hreads.exitLong.middle (long, short) hmiddle).1
    next => exact hreads.exitLong.column column hcolumn
  | short =>
    simp only [ExecutionPlan.exitColumn] at hcolumn
    split at hcolumn
    next long short _ hmiddle =>
      rw [← Option.some.inj hcolumn]
      exact (hreads.exitLong.middle (long, short) hmiddle).2
    next => exact hreads.exitShort.column column hcolumn

theorem assembleSignals_congr {plan : ExecutionPlan} {columns : List String}
    (hreads : plan.ReadsFrom columns) {df df' : DataFrame F}
    (h : ∀ column ∈ columns, df column = df' column) :
    (assembleSignals plan df).map signalsOnly = (assembleSignals plan df').map signalsOnly := by
  have hsignal : ∀ column ∈ columns, readSignal df column = readSignal df' column := by
    intro column hcolumn
    simp only [readSignal, readColumn, h column hcolumn]
  have hexit : ∀ side, readExitSignal df (plan.exitColumn side) =
      readExitSignal df' (plan.exitColumn side) := by
    intro side
    have hcolumn := readsFrom_exitColumn hreads side
    cases hc : plan.exitColumn side with
    | none => rfl
    | some c =>
      simp only [readExitSignal]
      rw [hsignal c (hcolumn c hc)]
  rw [assembleSignals_eq, assembleSignals_eq, hsignal _ hreads.entryLong,
    hsignal _ hreads.entryShort, hexit .long, hexit .short]
  cases readSignal df' plan.entryLongColumn with
  | error e => rfl
  | ok entryLong =>
    cases readSignal df' plan.entryShortColumn with
    | error e => rfl
    | ok entryShort =>
      cases readExitSignal df' (plan.exitColumn .long) with
      | error e => rfl
      | ok exitLong =>
        cases readExitSignal df' (plan.exitColumn .short) with
        | error e => rfl
        | ok exitShort => rfl

theorem writtenColumns_of_genome {genome : Genome} {column : String}
    (h : column ∈ writtenColumns genome.sortedNodes) :
    ∃ node ∈ genome.nodes, ∃ port ∈ nodePorts node, columnName node.id port = column := by
  obtain ⟨node, hnode, hcolumn⟩ := List.mem_flatMap.mp h
  obtain ⟨id, -, hid⟩ := List.mem_filterMap.mp hnode
  split at hcolumn
  · obtain ⟨port, hport, heq⟩ := List.mem_map.mp hcolumn
    exact ⟨node, KeyedTables.mem_of_lookup hid, port, hport, heq⟩
  · cases hcolumn

theorem freshIndicators_direct {strategy : Strategy F} {plan : ExecutionPlan}
    (haccepted : Accepted F strategy.genome)
    (hseparated : Separated strategy.genome strategy.trial)
    (hplan : strategy.plan = .ok plan) (frame : Frame F) :
    (freshIndicators strategy frame).map signalsOnly =
      (plan.sortedNodes.foldlM (evaluateDirect frame (latentsOf strategy frame))
        fun _ _ => none) >>= fun values =>
          (assembleSignals plan (valueColumns strategy.genome values)).map signalsOnly := by
  have hcompiled := compilePlan_of_plan hplan
  have hagrees := Tracks.run haccepted.nodup hseparated.ports hseparated.columns
    (wellOrdered_sortedNodes haccepted.nodup hcompiled) (List.nil_append _).symm
    (tracks_start strategy.genome frame (latentsOf strategy frame))
  rw [freshIndicators_eq frame hplan, freshRun]
  revert hagrees
  cases ((nodeMemo frame (latentsOf strategy frame)).run [] (fun _ => none) plan.sortedNodes).1 with
  | error e =>
    cases plan.sortedNodes.foldlM (evaluateDirect frame (latentsOf strategy frame))
        fun _ _ => none with
    | error e' => exact fun h => congrArg Except.error h
    | ok values => exact fun h => h.elim
  | ok df =>
    cases plan.sortedNodes.foldlM (evaluateDirect frame (latentsOf strategy frame))
        fun _ _ => none with
    | error e' => exact fun h => h.elim
    | ok values =>
      intro h
      refine assembleSignals_congr (haccepted.plan_readsFrom hcompiled) fun column hcolumn => ?_
      obtain ⟨node, hnode, port, hport, rfl⟩ := writtenColumns_of_genome hcolumn
      rw [valueColumns_eq hseparated.columns values hnode hport]
      exact h node hnode port hport

/-! ## From compiled nodes to nodes -/

section Nodes

variable {genome : Genome} {trial : TrialParams}

omit [PriceFloat F] in
theorem readValue_eq (values : Values F) {binding : InputBinding}
    (h : binding.column = columnName binding.nodeId binding.port) :
    readValue values binding = readPort values (binding.nodeId, binding.port) := by
  unfold readValue readPort
  cases values binding.nodeId binding.port with
  | none => exact congrArg (fun column => Except.error (Failure.keyError column)) h
  | some column => rfl

omit [PriceFloat F] in
theorem readInputs_eq_ports {id : String} {compiled : CompiledNode}
    (h : compileById genome trial id = .ok compiled) (values : Values F) :
    compiled.inputBindings.mapM (readValue values) =
      compiled.node.inputs.mapM fun raw => readPort values (parseInputRef raw) := by
  obtain ⟨keys, -, hbound, hports, hids⟩ := compiled_inputs h
  have hcolumn : ∀ binding ∈ compiled.inputBindings,
      binding.column = columnName binding.nodeId binding.port := by
    intro binding hbinding
    obtain ⟨i, hi, rfl⟩ := List.getElem_of_mem hbinding
    exact (hbound.get hi (hbound.length_eq ▸ hi)).column
  have hrefs : compiled.inputBindings.map (fun binding => (binding.nodeId, binding.port)) =
      compiled.node.inputs.map parseInputRef := by
    calc compiled.inputBindings.map (fun binding => (binding.nodeId, binding.port))
        = List.zip (compiled.inputBindings.map InputBinding.nodeId)
            (compiled.inputBindings.map InputBinding.port) := by
          rw [List.zip_map', List.map_congr_left fun _ _ => rfl]
      _ = compiled.node.inputs.map parseInputRef := by
          rw [hports, hids, GenomeNode.parents, GenomeNode.inputPorts, List.zip_map']
  calc compiled.inputBindings.mapM (readValue values)
      = compiled.inputBindings.mapM fun binding =>
          readPort values (binding.nodeId, binding.port) :=
        mapM_congr fun binding hbinding => readValue_eq values (hcolumn binding hbinding)
    _ = (compiled.inputBindings.map fun binding => (binding.nodeId, binding.port)).mapM
          (readPort values) := by
        rw [List.mapM_map]
        rfl
    _ = compiled.node.inputs.mapM fun raw => readPort values (parseInputRef raw) := by
        rw [hrefs, List.mapM_map]
        rfl

theorem evaluateDirect_eq_into {id : String} {compiled : CompiledNode}
    (h : compileById genome trial id = .ok compiled) (frame : Frame F)
    (latents : Option (Latents F)) (values : Values F) :
    evaluateDirect frame latents values compiled =
      evaluateInto trial frame latents values compiled.node := by
  obtain ⟨fuel, -, hfrom⟩ := compileById_spec h
  unfold evaluateDirect evaluateInto
  rw [readInputs_eq_ports h, hfrom.params]

theorem foldlM_direct_eq {nodes : List CompiledNode}
    (h : ∀ c ∈ nodes, ∃ id, compileById genome trial id = .ok c) (frame : Frame F)
    (latents : Option (Latents F)) (values : Values F) :
    nodes.foldlM (evaluateDirect frame latents) values =
      (nodes.map CompiledNode.node).foldlM (evaluateInto trial frame latents) values := by
  induction nodes generalizing values with
  | nil => rfl
  | cons c nodes ih =>
    obtain ⟨id, hid⟩ := h c List.mem_cons_self
    rw [List.map_cons, List.foldlM_cons, List.foldlM_cons, evaluateDirect_eq_into hid]
    exact bind_congr fun values' => ih (fun c hc => h c (List.mem_cons_of_mem _ hc)) values'

end Nodes

/-! ## From columns to ports -/

section Ports

variable {genome : Genome} {trial : TrialParams} {plan : ExecutionPlan}

omit [PriceFloat F] in
theorem readColumn_valueColumns (hcolumns : ColumnsSeparated genome) (values : Values F)
    {node : GenomeNode} (hnode : node ∈ genome.nodes) {port : String}
    (hport : port ∈ nodePorts node) :
    readColumn (valueColumns genome values) (columnName node.id port) =
      readPort values (node.id, port) := by
  have hvalue := valueColumns_eq hcolumns values hnode hport
  unfold readColumn readPort
  cases hcell : values node.id port with
  | none => simp only [hvalue, hcell]
  | some column => simp only [hvalue, hcell]

omit [PriceFloat F] in
theorem readColumn_of_lookup (hcolumns : ColumnsSeparated genome) (values : Values F) {id : String}
    {compiled : CompiledNode} (h : compileById genome trial id = .ok compiled)
    {port column : String} (hlookup : compiled.columnByPort.lookup port = some column) :
    readColumn (valueColumns genome values) column = readPort values (id, port) := by
  obtain ⟨hmem, hid⟩ := compileById_id h
  rw [compileById_columns h] at hlookup
  obtain ⟨hport, rfl⟩ := mem_nodePorts_of_lookup hlookup
  rw [readColumn_valueColumns hcolumns values hmem hport, hid]

theorem readSignal_eq {df : DataFrame F} {values : Values F} {column : String}
    {port : String × String} (h : readColumn df column = readPort values port) :
    readSignal df column = (readPort values port).map Column.signals := by
  unfold readSignal
  rw [h]
  rfl

theorem readExitSignal_some {df : DataFrame F} {values : Values F} {column : String}
    {port : String × String} (h : readColumn df column = readPort values port) :
    readExitSignal df (some column) = readSource values (some port) := by
  unfold readExitSignal readSource
  simp only [readSignal_eq h]
  cases readPort values port with
  | error e => rfl
  | ok column => rfl

theorem exitColumn_of_policy (h : plan.exitLong.policy ≠ .middleBand) (side : Side) :
    plan.exitColumn side = (plan.exit side).column := by
  cases side with
  | long =>
    simp only [ExecutionPlan.exitColumn]
    split
    · contradiction
    · rfl
  | short => exact exitColumn_short h

theorem readExitSignal_eq (hplan : compilePlan genome trial = .ok plan)
    (hcolumns : ColumnsSeparated genome) (values : Values F) (side : Side) :
    readExitSignal (valueColumns genome values) (plan.exitColumn side) =
      readSource values (exitSource genome side) := by
  obtain ⟨hlong, hshort, node, hnodes, hexits, -⟩ := compilePlan_ok hplan
  have hnode : ∀ side, genome.exitNode? side = some (node side).node := by
    intro side
    obtain ⟨fuel, -, hfrom⟩ := compileById_spec (hnodes side)
    exact hfrom.node
  unfold exitSource
  rw [hnode .long, Option.map_some]
  by_cases hband : (node .long).node.kind = .exitMiddleBand
  · -- the columns of the band are those of the long exit, for both sides
    have hexit := hexits .long
    unfold resolveExit at hexit
    simp only [hband, bind_eq_ok, pure_eq_ok] at hexit
    obtain ⟨long, hl, short, hs, hexit⟩ := hexit
    have hplanExit :
        plan.exitLong = { policy := .middleBand, middleColumns := some (long, short) } :=
      hexit.symm
    rw [if_pos (by rw [hband])]
    cases side with
    | long =>
      have hcolumn : plan.exitColumn .long = some long := by
        simp only [ExecutionPlan.exitColumn, hplanExit]
      rw [hcolumn, if_pos rfl]
      exact readExitSignal_some
        (readColumn_of_lookup hcolumns values (hnodes .long) (getKey_eq_ok.mp hl))
    | short =>
      have hcolumn : plan.exitColumn .short = some short := by
        simp only [ExecutionPlan.exitColumn, hplanExit]
      rw [hcolumn, if_neg (by decide)]
      exact readExitSignal_some
        (readColumn_of_lookup hcolumns values (hnodes .long) (getKey_eq_ok.mp hs))
  · have hpolicy : plan.exitLong.policy ≠ .middleBand :=
      fun h => hband (resolveExit_policy (hexits .long) h)
    rw [exitColumn_of_policy hpolicy, if_neg fun h => hband (Option.some.inj h), hnode side,
      Option.map_some]
    have hexit := hexits side
    unfold resolveExit at hexit
    split at hexit
    next hkind =>
      rw [← Except.ok.inj hexit, hkind]
      rfl
    next hkind =>
      rw [← Except.ok.inj hexit, hkind]
      rfl
    next hkind =>
      rw [← Except.ok.inj hexit, hkind]
      obtain ⟨compiled, hcompiled, hlookup⟩ := resolveSignalColumn_ok hlong
      obtain ⟨compiled', hcompiled', hlookup'⟩ := resolveSignalColumn_ok hshort
      cases side with
      | long =>
        exact readExitSignal_some (readColumn_of_lookup hcolumns values hcompiled' hlookup')
      | short =>
        exact readExitSignal_some (readColumn_of_lookup hcolumns values hcompiled hlookup)
    next hkind =>
      simp only [bind_eq_ok, pure_eq_ok] at hexit
      obtain ⟨long, -, short, -, hexit⟩ := hexit
      rw [← hexit, hkind]
      rfl
    next hfixed hrebalance hopposite hmiddle =>
      simp only [bind_eq_ok, pure_eq_ok] at hexit
      obtain ⟨column, hcolumn, hexit⟩ := hexit
      rw [← hexit]
      refine (readExitSignal_some (readColumn_of_lookup hcolumns values (hnodes side)
        (getKey_eq_ok.mp hcolumn))).trans (congrArg (readSource values) ?_)
      split
      next h => exact absurd (Option.some.inj h) hfixed
      next h => exact absurd (Option.some.inj h) hrebalance
      next h => exact absurd (Option.some.inj h) hmiddle
      next h => exact absurd (Option.some.inj h) hopposite
      next => rfl

end Ports

/-! ## Answers -/

theorem compositeAnswers_signals {strategy : Strategy F} {plan : ExecutionPlan}
    (hplan : strategy.plan = .ok plan) (frame : Frame F) :
    compositeAnswers strategy frame =
      ((freshIndicators strategy frame).map signalsOnly).map fun indicators =>
        answersOf plan.fixedHoldingPeriod frame.times indicators.entryLongSignal
          indicators.entryShortSignal indicators.exitLongSignal indicators.exitShortSignal := by
  unfold compositeAnswers
  rw [hplan]
  cases freshIndicators strategy frame with
  | error e => rfl
  | ok indicators =>
    refine congrArg Except.ok (congrArg (Answers.mk (compositeEntries indicators)) ?_)
    funext symbol bar openTrades
    unfold checkExitConditions
    cases plan.fixedHoldingPeriod with
    | none => rfl
    | some holdingPeriod => rfl

theorem accepted_of_plan {strategy : Strategy F} {plan : ExecutionPlan}
    (h : strategy.plan = .ok plan) : Accepted F strategy.genome := by
  simp only [Strategy.plan, compileGenome, bind_eq_ok] at h
  obtain ⟨_, hvalid, -⟩ := h
  unfold Accepted
  cases hvalidate : validateGenome F strategy.genome defaultMaxDepth defaultMaxNodeCount with
  | ok _ => rfl
  | error e =>
    rw [hvalidate] at hvalid
    cases hvalid

theorem compositeAnswers_of_plan {strategy : Strategy F} {plan : ExecutionPlan}
    (hplan : strategy.plan = .ok plan) (hseparated : Separated strategy.genome strategy.trial)
    (frame : Frame F) :
    compositeAnswers strategy frame =
      genomeAnswers strategy.genome strategy.trial frame (latentsOf strategy frame) := by
  have haccepted : Accepted F strategy.genome := accepted_of_plan hplan
  have hcompiled := compilePlan_of_plan hplan
  have hnodes : ∀ c ∈ plan.sortedNodes, ∃ id,
      compileById strategy.genome strategy.trial id = .ok c := by
    intro c hc
    have hall := compilePlan_sortedNodes hcompiled
    obtain ⟨i, hi, rfl⟩ := List.getElem_of_mem hc
    exact ⟨_, hall.get (hall.length_eq ▸ hi) hi⟩
  obtain ⟨hlong, hshort, -⟩ := compilePlan_ok hcompiled
  obtain ⟨long, hlongNode, hlongColumn⟩ := resolveSignalColumn_ok hlong
  obtain ⟨short, hshortNode, hshortColumn⟩ := resolveSignalColumn_ok hshort
  rw [compositeAnswers_signals hplan, freshIndicators_direct haccepted hseparated hplan,
    foldlM_direct_eq hnodes, plan_nodes_of hcompiled]
  unfold genomeAnswers evaluateGenome
  cases strategy.genome.sortedNodes.foldlM
      (evaluateInto strategy.trial frame (latentsOf strategy frame)) fun _ _ => none with
  | error e => rfl
  | ok values =>
    show Except.map _ (Except.map signalsOnly (assembleSignals plan _)) =
      answersFrom strategy.genome strategy.trial frame.times values
    unfold answersFrom
    rw [assembleSignals_eq, readExitSignal_eq hcompiled hseparated.columns,
      readExitSignal_eq hcompiled hseparated.columns,
      readSignal_eq (readColumn_of_lookup hseparated.columns values hlongNode hlongColumn),
      readSignal_eq (readColumn_of_lookup hseparated.columns values hshortNode hshortColumn),
      fixedHoldingPeriod_eq hcompiled]
    cases readPort values (parseInputRef strategy.genome.entryLong) with
    | error e => rfl
    | ok entryLong =>
      cases readPort values (parseInputRef strategy.genome.entryShort) with
      | error e => rfl
      | ok entryShort =>
        cases readSource values (exitSource strategy.genome .long) with
        | error e => rfl
        | ok exitLong =>
          cases readSource values (exitSource strategy.genome .short) with
          | error e => rfl
          | ok exitShort => rfl

/-- A strategy raises what the compiler raises, or else answers as its genome says, exceptions
included, when the names of the genome are not ambiguous. -/
theorem composite_answers_meaning (strategy : Strategy F)
    (hseparated : Separated strategy.genome strategy.trial) (frame : Frame F) :
    compositeAnswers strategy frame = strategy.plan >>= fun _ =>
      genomeAnswers strategy.genome strategy.trial frame (latentsOf strategy frame) := by
  cases hplan : strategy.plan with
  | error e =>
    unfold compositeAnswers
    rw [hplan]
    rfl
  | ok plan => exact compositeAnswers_of_plan hplan hseparated frame

theorem channel_answers_meaning :
    Separated (channelStrategy "d:donchian_upper").genome
        (channelStrategy "d:donchian_upper").trial ∧
      compositeAnswers (channelStrategy "d:donchian_upper") channelFrame =
        (channelStrategy "d:donchian_upper").plan >>= fun _ =>
          genomeAnswers (channelStrategy "d:donchian_upper").genome
            (channelStrategy "d:donchian_upper").trial channelFrame none :=
  ⟨⟨by decide +kernel, by decide +kernel⟩,
    composite_answers_meaning (channelStrategy "d:donchian_upper")
      ⟨by decide +kernel, by decide +kernel⟩ channelFrame⟩

end QBackend.RegisteredStrategies
