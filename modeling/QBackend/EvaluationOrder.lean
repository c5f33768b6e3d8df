import QBackend.AssembledGenomes
import QBackend.GenomeMeaning
import QBackend.GraphChecks

/-!
# Orders of evaluation

Nodes that are evaluated one after another, each after the nodes that it reads, have values that
give every node's outputs from those of its inputs. There is only one such assignment of values, so
every order in which parents come first ends with the same values, or fails like every other one.
-/

namespace QBackend.RegisteredStrategies

open GenomeDsl FallibleSteps TopologicalOrder
open Execution (Time)

variable {F : Type} [PriceFloat F]

section Runs

variable (trial : TrialParams) (frame : Frame F) (latents : Option (Latents F))

/-- The values of nodes that are evaluated in their order. -/
def runNodes (nodes : List GenomeNode) : Except Failure (Values F) :=
  nodes.foldlM (evaluateInto trial frame latents) fun _ _ => none

/-- What the node writes from the values of its inputs. -/
def nodeOutputs (values : Values F) (node : GenomeNode) : Except Failure (Outputs F) := do
  let inputs ← node.inputs.mapM fun raw => readPort values (parseInputRef raw)
  evaluateKind frame latents node.kind (resolveNodeParams trial node) inputs

/-- Every node has the outputs that the values of its inputs give, and no other id has a value. -/
structure Solves (nodes : List GenomeNode) (values : Values F) : Prop where
  outputs : ∀ node ∈ nodes, ∃ outputs, nodeOutputs trial frame latents values node = .ok outputs ∧
    values node.id = fun port => outputs.lookup port
  outside : ∀ id ∉ nodes.map GenomeNode.id, values id = fun _ => none

end Runs

/-- The nodes have ids of their own, and each comes after the nodes that it reads. -/
inductive InputsFirst : List GenomeNode → Prop where
  | nil : InputsFirst []
  | snoc {nodes : List GenomeNode} {node : GenomeNode} : InputsFirst nodes →
      node.id ∉ nodes.map GenomeNode.id →
      (∀ raw ∈ node.inputs, (parseInputRef raw).1 ∈ nodes.map GenomeNode.id) →
      InputsFirst (nodes ++ [node])

variable {trial : TrialParams} {frame : Frame F} {latents : Option (Latents F)}
  {nodes : List GenomeNode} {node : GenomeNode} {values values' : Values F}

/-! ## One more node -/

@[simp] theorem runNodes_nil : runNodes trial frame latents [] = .ok fun _ _ => none := rfl

theorem evaluateInto_eq :
    evaluateInto trial frame latents values node =
      nodeOutputs trial frame latents values node >>= fun outputs =>
        pure (Function.update values node.id fun port => outputs.lookup port) := by
  unfold evaluateInto nodeOutputs
  rw [bind_assoc]

theorem runNodes_snoc :
    runNodes trial frame latents (nodes ++ [node]) =
      runNodes trial frame latents nodes >>= fun values =>
        nodeOutputs trial frame latents values node >>= fun outputs =>
          pure (Function.update values node.id fun port => outputs.lookup port) := by
  unfold runNodes
  rw [List.foldlM_append]
  refine bind_congr fun values => ?_
  rw [List.foldlM_cons, evaluateInto_eq]
  exact bind_pure _

theorem nodeOutputs_congr
    (h : ∀ raw ∈ node.inputs, values (parseInputRef raw).1 = values' (parseInputRef raw).1) :
    nodeOutputs trial frame latents values node = nodeOutputs trial frame latents values' node := by
  have hread : node.inputs.mapM (fun raw => readPort values (parseInputRef raw)) =
      node.inputs.mapM fun raw => readPort values' (parseInputRef raw) :=
    mapM_congr fun raw hraw => by
      unfold readPort
      rw [h raw hraw]
  unfold nodeOutputs
  rw [hread]

/-! ## Solutions -/

theorem InputsFirst.inputs_mem (h : InputsFirst nodes) (hnode : node ∈ nodes) {raw : String}
    (hraw : raw ∈ node.inputs) : (parseInputRef raw).1 ∈ nodes.map GenomeNode.id := by
  induction h with
  | nil => cases hnode
  | snoc _ _ hinputs ih =>
    rw [List.map_append]
    refine List.mem_append_left _ ?_
    obtain hnode | hnode := List.mem_append.mp hnode
    · exact ih hnode
    · obtain rfl := List.mem_singleton.mp hnode
      exact hinputs raw hraw

theorem solves_of_run (h : InputsFirst nodes)
    (hrun : runNodes trial frame latents nodes = .ok values) :
    Solves trial frame latents nodes values := by
  induction h generalizing values with
  | nil =>
    obtain rfl := Except.ok.inj hrun
    exact ⟨by simp, fun _ _ => rfl⟩
  | @snoc nodes node hnodes hfresh hinputs ih =>
    rw [runNodes_snoc] at hrun
    simp only [bind_eq_ok, pure_eq_ok] at hrun
    obtain ⟨before, hbefore, outputs, houtputs, rfl⟩ := hrun
    have hsolves := ih hbefore
    -- the ids before the new one keep their values
    have hkept : ∀ id ∈ nodes.map GenomeNode.id,
        Function.update before node.id (fun port => outputs.lookup port) id = before id := by
      intro id hid
      refine Function.update_of_ne ?_ _ _
      rintro rfl
      exact hfresh hid
    refine ⟨fun other hother => ?_, fun id hid => ?_⟩
    · obtain hother | hother := List.mem_append.mp hother
      · obtain ⟨written, hwritten, hvalues⟩ := hsolves.outputs other hother
        refine ⟨written, ?_, ?_⟩
        · rw [← hwritten]
          exact nodeOutputs_congr fun raw hraw => hkept _ (hnodes.inputs_mem hother hraw)
        · rw [hkept _ (List.mem_map_of_mem hother), hvalues]
      · obtain rfl := List.mem_singleton.mp hother
        refine ⟨outputs, ?_, Function.update_self _ _ _⟩
        rw [← houtputs]
        exact nodeOutputs_congr fun raw hraw => hkept _ (hinputs raw hraw)
    · rw [List.map_append, List.mem_append, not_or] at hid
      rw [Function.update_of_ne fun heq => hid.2 (by simp [heq]), hsolves.outside id hid.1]

/-- The values of the ids of some nodes. -/
def restrictTo (nodes : List GenomeNode) (values : Values F) : Values F := fun id =>
  if id ∈ nodes.map GenomeNode.id then values id else fun _ => none

omit [PriceFloat F] in
theorem restrictTo_of_mem {id : String} (h : id ∈ nodes.map GenomeNode.id) :
    restrictTo nodes values id = values id := if_pos h

omit [PriceFloat F] in
theorem restrictTo_snoc {outputs : Outputs F}
    (h : values node.id = fun port => outputs.lookup port) :
    Function.update (restrictTo nodes values) node.id (fun port => outputs.lookup port) =
      restrictTo (nodes ++ [node]) values := by
  funext id
  by_cases hid : id = node.id
  · subst hid
    rw [Function.update_self, restrictTo_of_mem (by simp), h]
  · rw [Function.update_of_ne hid]
    unfold restrictTo
    simp [hid]

theorem Solves.restrict (h : Solves trial frame latents nodes values) :
    restrictTo nodes values = values := by
  funext id
  by_cases hid : id ∈ nodes.map GenomeNode.id
  · exact restrictTo_of_mem hid
  · rw [h.outside id hid]
    exact if_neg hid

theorem run_of_outputs (h : InputsFirst nodes)
    (hvalues : ∀ node ∈ nodes, ∃ outputs,
      nodeOutputs trial frame latents values node = .ok outputs ∧
        values node.id = fun port => outputs.lookup port) :
    runNodes trial frame latents nodes = .ok (restrictTo nodes values) := by
  induction h with
  | nil => rfl
  | @snoc nodes node hnodes hfresh hinputs ih =>
    obtain ⟨outputs, houtputs, hnode⟩ := hvalues node (by simp)
    have hread : nodeOutputs trial frame latents (restrictTo nodes values) node = .ok outputs := by
      rw [← houtputs]
      exact nodeOutputs_congr fun raw hraw => restrictTo_of_mem (hinputs raw hraw)
    rw [runNodes_snoc, ih fun other hother => hvalues other (List.mem_append_left _ hother),
      ok_bind, hread, ok_bind, restrictTo_snoc hnode]
    rfl

theorem run_eq_ok (h : InputsFirst nodes) :
    runNodes trial frame latents nodes = .ok values ↔ Solves trial frame latents nodes values := by
  constructor
  · exact solves_of_run h
  · intro hsolves
    rw [run_of_outputs h hsolves.outputs, hsolves.restrict]

theorem Solves.perm {nodes' : List GenomeNode} (h : Solves trial frame latents nodes values)
    (hperm : nodes.Perm nodes') : Solves trial frame latents nodes' values where
  outputs node hnode := h.outputs node (hperm.mem_iff.mpr hnode)
  outside id hid := h.outside id fun hmem => hid ((hperm.map GenomeNode.id).mem_iff.mp hmem)

theorem toOption_eq_some {ε α : Type} {x : Except ε α} {a : α} :
    x.toOption = some a ↔ x = .ok a := by
  cases x with
  | error e => simp [Except.toOption]
  | ok b => simp [Except.toOption]

theorem run_perm {nodes' : List GenomeNode} (h : InputsFirst nodes) (h' : InputsFirst nodes')
    (hperm : nodes.Perm nodes') :
    (runNodes trial frame latents nodes).toOption =
      (runNodes trial frame latents nodes').toOption := by
  refine Option.ext fun values => ?_
  rw [toOption_eq_some, toOption_eq_some, run_eq_ok h, run_eq_ok h']
  exact ⟨fun hs => hs.perm hperm, fun hs => hs.perm hperm.symm⟩

/-! ## The order of the compiler -/

theorem inputsFirst_of_split (hnodup : (nodes.map GenomeNode.id).Nodup)
    (hinputs : ∀ before node after, nodes = before ++ node :: after → ∀ raw ∈ node.inputs,
      (parseInputRef raw).1 ∈ before.map GenomeNode.id) : InputsFirst nodes := by
  induction nodes using List.reverseRecOn with
  | nil => exact .nil
  | append_singleton nodes node ih =>
    rw [List.map_append, List.map_singleton] at hnodup
    refine .snoc (ih (List.Nodup.of_append_left hnodup) fun before node' after hsplit => ?_) ?_ ?_
    · refine hinputs before node' (after ++ [node]) ?_
      rw [hsplit, List.append_assoc, List.cons_append]
    · intro hmem
      exact (List.nodup_append.mp hnodup).2.2 _ hmem _ (List.mem_singleton_self _) rfl
    · exact hinputs nodes node [] rfl

theorem sortedNodes_inputsFirst {genome : Genome} (h : Accepted F genome) :
    InputsFirst genome.sortedNodes := by
  refine inputsFirst_of_split ?_ fun before node after hsplit raw hraw =>
    sortedNodes_parentsFirst h.nodup hsplit hraw
  rw [sortedNodes_ids h.nodup]
  exact kahn_nodup h.nodup

theorem inputsFirst_of_assembled (h : Assembled F nodes) : InputsFirst nodes := by
  induction h with
  | nil => exact .nil
  | snoc _ hfits ih =>
    refine .snoc ih hfits.fresh fun raw hraw => ?_
    obtain ⟨parent, hparent, -, hname, -⟩ := hfits.inputs raw hraw
    rw [hname]
    exact List.mem_map_of_mem hparent

theorem evaluateGenome_in_order {genome : Genome} (h : Accepted F genome)
    (hfirst : InputsFirst genome.nodes) :
    (evaluateGenome genome trial frame latents).toOption =
      (runNodes trial frame latents genome.nodes).toOption :=
  run_perm (sortedNodes_inputsFirst h) hfirst
    (sortedNodes_perm h.nodup h.length_kahn)

end QBackend.RegisteredStrategies
