import QBackend.GenomeValidation

/-!
# Execution plans

`compile.py`. The cache key of a node is the text of its kind, its parameters and the cache keys of
its inputs; the texts of different such trees differ, so the key is the tree. The ports that the
inputs are read from are not part of it.
-/

namespace QBackend.GenomeDsl

open FallibleSteps TopologicalOrder

/-! ## Cache keys -/

inductive CacheKey where
  | mk (kind : NodeKind) (params : List (String × Value)) (inputs : List CacheKey)

mutual

def CacheKey.decEq : (a b : CacheKey) → Decidable (a = b)
  | .mk k₁ p₁ i₁, .mk k₂ p₂ i₂ =>
    if hk : k₁ = k₂ then
      if hp : p₁ = p₂ then
        match CacheKey.decEqList i₁ i₂ with
        | isTrue hi => isTrue (by rw [hk, hp, hi])
        | isFalse hi => isFalse (by simp [hi])
      else isFalse (by simp [hp])
    else isFalse (by simp [hk])

def CacheKey.decEqList : (as bs : List CacheKey) → Decidable (as = bs)
  | [], [] => isTrue rfl
  | [], _ :: _ => isFalse (by simp)
  | _ :: _, [] => isFalse (by simp)
  | a :: as, b :: bs =>
    match CacheKey.decEq a b, CacheKey.decEqList as bs with
    | isTrue h, isTrue hs => isTrue (by rw [h, hs])
    | isFalse h, _ => isFalse (by simp [h])
    | _, isFalse hs => isFalse (by simp [hs])

end

instance : DecidableEq CacheKey := CacheKey.decEq

/-! ## Compiled nodes -/

structure InputBinding where
  nodeId : String
  port : String
  column : String
  deriving DecidableEq

structure CompiledNode where
  node : GenomeNode
  resolvedParams : List (String × Value)
  columnByPort : List (String × String)
  inputBindings : List InputBinding
  cacheKey : CacheKey

def columnName (nodeId port : String) : String :=
  if port = "out" then "g_" ++ nodeId else "g_" ++ nodeId ++ "__" ++ port

def getKey {α : Type} (entries : List (String × α)) (key : String) : Except Failure α :=
  match entries.lookup key with
  | some a => .ok a
  | none => .error (.keyError key)

def Genome.getNode (genome : Genome) (id : String) : Except Failure GenomeNode :=
  match genome.node? id with
  | some node => .ok node
  | none => .error (.keyError id)

def columnByPort (node : GenomeNode) : List (String × String) :=
  (nodeSpec node.kind).ports.map fun port => (port.1, columnName node.id port.1)

/-- The node with the bindings and the keys of its inputs, which are compiled before it. The
recursion of the source goes down the inputs and ends because the genome is acyclic. -/
def compileNode (genome : Genome) (trial : TrialParams) : ℕ → String → Except Failure CompiledNode
  | 0, _ => .error .recursionError
  | fuel + 1, id => do
    let node ← genome.getNode id
    let inputs ← node.inputs.mapM fun raw => do
      let parent ← compileNode genome trial fuel (parseInputRef raw).1
      let column ← getKey parent.columnByPort (parseInputRef raw).2
      pure (InputBinding.mk (parseInputRef raw).1 (parseInputRef raw).2 column, parent.cacheKey)
    let resolved := resolveNodeParams trial node
    pure
      { node := node
        resolvedParams := resolved
        columnByPort := columnByPort node
        inputBindings := inputs.map Prod.fst
        cacheKey := .mk node.kind resolved (inputs.map Prod.snd) }

def compileById (genome : Genome) (trial : TrialParams) (id : String) :
    Except Failure CompiledNode :=
  compileNode genome trial genome.nodes.length id

/-! ## Exits -/

inductive ExitPolicyKind where
  | bool | fixedHolding | middleBand | rebalance
  deriving DecidableEq, Repr

inductive Side where
  | long | short
  deriving DecidableEq, Repr

structure ResolvedExit where
  policy : ExitPolicyKind
  column : Option String := none
  middleColumns : Option (String × String) := none
  deriving DecidableEq, Repr

def resolveExit (exitNode : CompiledNode) (entryLong entryShort ref : String) (side : Side) :
    Except Failure ResolvedExit :=
  match exitNode.node.kind with
  | .exitFixedHolding => .ok { policy := .fixedHolding }
  | .exitRebalance => .ok { policy := .rebalance }
  | .exitOppositeSignal =>
    .ok { policy := .bool, column := some (if side = .long then entryShort else entryLong) }
  | .exitMiddleBand => do
    let exitLong ← getKey exitNode.columnByPort "exit_long"
    let exitShort ← getKey exitNode.columnByPort "exit_short"
    pure { policy := .middleBand, middleColumns := some (exitLong, exitShort) }
  | _ => do
    let column ← getKey exitNode.columnByPort (parseInputRef ref).2
    pure { policy := .bool, column := some column }

/-- The holding period of the exit, when that is its kind. -/
def holdingPeriod (long short : CompiledNode) : Except Failure (Option ℤ) := do
  if long.node.kind = .exitFixedHolding then
    let value ← getKey long.resolvedParams "holding_period"
    return some (← value.toInt)
  else if short.node.kind = .exitFixedHolding then
    let value ← getKey short.resolvedParams "holding_period"
    return some (← value.toInt)
  else return none

structure ExecutionPlan where
  sortedNodes : List CompiledNode
  entryLongColumn : String
  entryShortColumn : String
  exitLong : ResolvedExit
  exitShort : ResolvedExit
  fixedHoldingPeriod : Option ℤ

/-! ## The compiler -/

/-- A `GenomeValidationError` is a `ValueError`. -/
def ValidationError.toFailure : ValidationError → Failure
  | .typeError => .typeError "'>' not supported between instances"
  | e => .valueError (reprStr e)

def topologicalSort (genome : Genome) : Except Failure (List String) :=
  let ordered := kahn genome.ids genome.parents
  if ordered.length = genome.nodes.length then .ok ordered
  else .error (.valueError "Failed to topologically sort genome DAG.")

def resolveSignalColumn (genome : Genome) (trial : TrialParams) (ref : String) :
    Except Failure String := do
  let compiled ← compileById genome trial (parseInputRef ref).1
  getKey compiled.columnByPort (parseInputRef ref).2

/-- The plan of a genome that was validated. -/
def compilePlan (genome : Genome) (trial : TrialParams) : Except Failure ExecutionPlan := do
  let _ ← genome.ids.mapM (compileById genome trial)
  let order ← topologicalSort genome
  let sortedNodes ← order.mapM (compileById genome trial)
  let entryLong ← resolveSignalColumn genome trial genome.entryLong
  let entryShort ← resolveSignalColumn genome trial genome.entryShort
  let exitLongNode ← compileById genome trial (parseInputRef genome.exitLong).1
  let exitShortNode ← compileById genome trial (parseInputRef genome.exitShort).1
  let exitLong ← resolveExit exitLongNode entryLong entryShort genome.exitLong .long
  let exitShort ← resolveExit exitShortNode entryLong entryShort genome.exitShort .short
  let holding ← holdingPeriod exitLongNode exitShortNode
  pure ⟨sortedNodes, entryLong, entryShort, exitLong, exitShort, holding⟩

def compileGenome (F : Type) [PriceFloat F] (genome : Genome) (trial : TrialParams) :
    Except Failure ExecutionPlan := do
  (validateGenome F genome defaultMaxDepth defaultMaxNodeCount).mapError
    ValidationError.toFailure
  compilePlan genome trial

end QBackend.GenomeDsl
