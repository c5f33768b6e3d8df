import QBackend.GenomeCompile
import QBackend.GraphReach
import QBackend.InputRefs
import QBackend.MemoRuns
import Mathlib.Data.List.Sort

/-!
# Crossover of subtrees

`_subtree_crossover` of `operators.py`: a node of the recipient is replaced by a copy of what a node
of the donor is computed from. The copies are numbered on from the largest number that an id of the
recipient has, that of the node to be replaced apart; the copy of a node below the root may so get
the very id whose consumers are rewired afterwards.
-/

namespace QBackend.GenomeDsl

open FallibleSteps TopologicalOrder GraphReach

/-! ## Cut nodes -/

def primaryOutputType (node : GenomeNode) : Option OutputType :=
  if node.kind = .exitMiddleBand then some .exitPolicy
  else (nodeSpec node.kind).ports.head?.map Prod.snd

def cuttableNodes (genome : Genome) : List GenomeNode :=
  genome.nodes.filter fun node => node.kind.family = .ind ∨ node.kind.family = .cmp ∨
    node.kind.family = .logic

def compatibleCutNodes (cutA : GenomeNode) (cutsB : List GenomeNode) : List GenomeNode :=
  cutsB.filter fun node => primaryOutputType node = primaryOutputType cutA ∧
    (nodeSpec node.kind).minInputs = (nodeSpec cutA.kind).minInputs ∧
    (nodeSpec node.kind).maxInputs = (nodeSpec cutA.kind).maxInputs

/-! ## Numbers in ids -/

/-- The zeros of the decimal digits of Unicode; each is followed by its nine other digits. -/
def decimalZeros : List ℕ :=
  [0x30, 0x660, 0x6f0, 0x7c0, 0x966, 0x9e6, 0xa66, 0xae6, 0xb66, 0xbe6, 0xc66, 0xce6, 0xd66, 0xde6,
    0xe50, 0xed0, 0xf20, 0x1040, 0x1090, 0x17e0, 0x1810, 0x1946, 0x19d0, 0x1a80, 0x1a90, 0x1b50,
    0x1bb0, 0x1c40, 0x1c50, 0xa620, 0xa8d0, 0xa900, 0xa9d0, 0xa9f0, 0xaa50, 0xabf0, 0xff10, 0x104a0,
    0x10d30, 0x11066, 0x110f0, 0x11136, 0x111d0, 0x112f0, 0x11450, 0x114d0, 0x11650, 0x116c0,
    0x11730, 0x118e0, 0x11950, 0x11c50, 0x11d50, 0x11da0, 0x11f50, 0x16a60, 0x16ac0, 0x16b50,
    0x1d7ce, 0x1d7d8, 0x1d7e2, 0x1d7ec, 0x1d7f6, 0x1e140, 0x1e2f0, 0x1e4f0, 0x1e950, 0x1fbf0]

/-- The digits that are not decimal, such as superscripts, by their first and last code points. -/
def otherDigits : List (ℕ × ℕ) :=
  [(0xb2, 0xb3), (0xb9, 0xb9), (0x1369, 0x1371), (0x19da, 0x19da), (0x2070, 0x2070),
    (0x2074, 0x2079), (0x2080, 0x2089), (0x2460, 0x2468), (0x2474, 0x247c), (0x2488, 0x2490),
    (0x24ea, 0x24ea), (0x24f5, 0x24fd), (0x24ff, 0x24ff), (0x2776, 0x277e), (0x2780, 0x2788),
    (0x278a, 0x2792), (0x10a40, 0x10a43), (0x10e60, 0x10e68), (0x11052, 0x1105a),
    (0x1f100, 0x1f10a)]

def decimalValue (c : Char) : Option ℕ :=
  (decimalZeros.find? fun first => decide (first ≤ c.toNat ∧ c.toNat < first + 10)).map fun first =>
    c.toNat - first

def isDigitChar (c : Char) : Bool :=
  (decimalValue c).isSome ||
    otherDigits.any fun range => decide (range.1 ≤ c.toNat ∧ c.toNat ≤ range.2)

/-- `str.isdigit`. -/
def isdigit (text : List Char) : Bool := !text.isEmpty && text.all isDigitChar

/-- `int` of digits, of any number; those that are not decimal are no literal. -/
def intOfDigits (text : List Char) : Except Failure ℕ :=
  text.foldlM (fun n c =>
    match decimalValue c with
    | some digit => .ok (10 * n + digit)
    | none => .error (.valueError "invalid literal for int() with base 10")) 0

/-- What follows the `n` of a numbered id. -/
def numericSuffix (id : String) : Option (List Char) :=
  match id.toList with
  | 'n' :: digits => if isdigit digits then some digits else none
  | _ => none

def maxNumericNodeSuffix (ids : List String) : Except Failure ℕ := do
  let suffixes ← (ids.filterMap numericSuffix).mapM intOfDigits
  pure (suffixes.foldr max 0)

/-! ## Copies -/

def numberedId (n : ℕ) : String := "n" ++ toString n

/-- The first number from the candidate on that is not taken; no id is met twice. -/
def nextUniqueNodeId (existing : List String) : ℕ → ℕ → String × ℕ
  | 0, candidate => (numberedId candidate, candidate + 1)
  | fuel + 1, candidate =>
    if numberedId candidate ∈ existing then nextUniqueNodeId existing fuel (candidate + 1)
    else (numberedId candidate, candidate + 1)

/-- The ids of the copies, in the order of the ids. -/
def assignIds (existing : List String) (counter : ℕ) : List String → List (String × String)
  | [] => []
  | id :: ids =>
    let next := nextUniqueNodeId existing existing.length counter
    (id, next.1) :: assignIds (next.1 :: existing) next.2 ids

def remapInputRef (idMap : String → String) (raw : String) : String :=
  if ':' ∈ raw.toList then idMap (parseInputRef raw).1 ++ ":" ++ (parseInputRef raw).2
  else idMap (parseInputRef raw).1

def copyNode (idMap : String → String) (node : GenomeNode) : GenomeNode :=
  { node with id := idMap node.id, inputs := node.inputs.map (remapInputRef idMap) }

def sortedIds (ids : List String) : List String := ids.insertionSort (· ≤ ·)

def nextParents (genome : Genome) (id : String) : Option (List String) :=
  (genome.node? id).map GenomeNode.parents

def subtreeNodeIds (genome : Genome) (root : String) : List String :=
  collect (nextParents genome) (collectFuel (nextParents genome) genome.ids) [root] []

/-! ## The child -/

def rewireRef (old new raw : String) : String :=
  if (parseInputRef raw).1 = old then remapInputRef (fun _ => new) raw else raw

def rewireConsumers (genome : Genome) (old new : String) : Genome :=
  { genome with
    nodes := genome.nodes.map fun node => { node with inputs := node.inputs.map (rewireRef old new) }
    entryLong := rewireRef old new genome.entryLong
    entryShort := rewireRef old new genome.entryShort
    exitLong := rewireRef old new genome.exitLong
    exitShort := rewireRef old new genome.exitShort }

/-- The ids of the recipient that count as taken. -/
def existingIds (recipient : Genome) (cut : String) : List String :=
  recipient.ids.filter fun id => id ≠ cut

/-- The child with the nodes `ids` of the donor imported and the consumers of the cut node rewired. -/
def rewiredChild (recipient donor : Genome) (cutA cutB : GenomeNode) (ids : List String) :
    Except Failure Genome := do
  let existing := existingIds recipient cutA.id
  let top ← maxNumericNodeSuffix existing
  let idMap := assignIds existing (top + 1) (sortedIds ids)
  let sources ← (sortedIds ids).mapM donor.getNode
  let newRoot ← getKey idMap cutB.id
  pure (rewireConsumers
    { recipient with
      nodes := (recipient.nodes.filter fun node => node.id ≠ cutA.id) ++
        sources.map (copyNode fun id => (idMap.lookup id).getD id) }
    cutA.id newRoot)

/-! ## Pruning and validation -/

def reachableNodeIds (genome : Genome) : List String :=
  let seeds := [genome.exitShort, genome.exitLong, genome.entryShort, genome.entryLong]
  collect (nextParents genome) (seeds.length + collectFuel (nextParents genome) genome.ids)
    (seeds.map fun ref => (parseInputRef ref).1) []

def pruneUnreachableNodes (genome : Genome) : Genome :=
  { genome with nodes := genome.nodes.filter fun node => node.id ∈ reachableNodeIds genome }

/-- The nodes of the subtree that read the id. -/
def dependents (genome : Genome) (ids : List String) (id : String) : List String :=
  ids.filter fun node => id ∈ genome.parents node

def pruneSubtreeLeaves (ids : List String) (genome : Genome) (keepRoot : String) : List String :=
  match ids.find? fun id => id ≠ keepRoot ∧ dependents genome ids id = [] with
  | none => ids
  | some leaf => ids.erase leaf

/-! ## Numbers that are not taken -/

theorem decimalValue_of_isDigit {c : Char} (h : c.isDigit = true) :
    decimalValue c = some (c.toNat - 48) := by
  have hrange : 48 ≤ c.toNat ∧ c.toNat < 48 + 10 := by
    obtain ⟨hfirst, hlast⟩ := Char.isDigit_iff_toNat.mp h
    have hnine : '9'.toNat = 57 := by decide
    exact ⟨hfirst, by omega⟩
  unfold decimalValue decimalZeros
  rw [List.find?_cons_of_pos (by simpa using hrange)]
  rfl

theorem intOfDigits_eq {text : List Char} (h : ∀ c ∈ text, c.isDigit = true) :
    intOfDigits text = .ok (Nat.ofDigitChars 10 text 0) := by
  have hfold : ∀ n, text.foldlM (fun n c =>
      match decimalValue c with
      | some digit => .ok (10 * n + digit)
      | none => .error (Failure.valueError "invalid literal for int() with base 10")) n =
        Except.ok (Nat.ofDigitChars 10 text n) := by
    induction text with
    | nil => intro n; rfl
    | cons c text ih =>
      intro n
      rw [List.foldlM_cons, decimalValue_of_isDigit (h c List.mem_cons_self)]
      exact ih (fun d hd => h d (List.mem_cons_of_mem c hd)) _
  exact hfold 0

theorem toList_numberedId (n : ℕ) : (numberedId n).toList = 'n' :: Nat.toDigits 10 n := by
  unfold numberedId
  rw [String.toList_append, Nat.toString_eq_repr, Nat.toList_repr]
  rfl

theorem numberedId_injective : Function.Injective numberedId := by
  intro m n h
  have hdigits : Nat.toDigits 10 m = Nat.toDigits 10 n := by
    have hlists := congrArg String.toList h
    rw [toList_numberedId, toList_numberedId] at hlists
    exact (List.cons.inj hlists).2
  rw [← Nat.ofDigitChars_ten_toDigits (n := m), hdigits, Nat.ofDigitChars_ten_toDigits]

theorem isDigit_toDigits (n : ℕ) : ∀ c ∈ Nat.toDigits 10 n, c.isDigit = true :=
  fun _ hc => Nat.isDigit_of_mem_toDigits (by decide) (by decide) hc

theorem numericSuffix_numberedId (n : ℕ) :
    numericSuffix (numberedId n) = some (Nat.toDigits 10 n) := by
  have hdigits : isdigit (Nat.toDigits 10 n) = true := by
    unfold isdigit
    rw [Bool.and_eq_true, Bool.not_eq_true', List.isEmpty_eq_false_iff, List.all_eq_true]
    refine ⟨Nat.toDigits_ne_nil, fun c hc => ?_⟩
    unfold isDigitChar
    rw [decimalValue_of_isDigit (isDigit_toDigits n c hc)]
    rfl
  unfold numericSuffix
  rw [toList_numberedId]
  exact if_pos hdigits

theorem le_foldr_max {ns : List ℕ} {n : ℕ} (h : n ∈ ns) : n ≤ ns.foldr max 0 := by
  induction ns with
  | nil => cases h
  | cons m ns ih =>
    rw [List.foldr_cons]
    obtain rfl | h := List.mem_cons.mp h
    · exact Nat.le_max_left _ _
    · exact Nat.le_trans (ih h) (Nat.le_max_right _ _)

/-- Above the largest number no numbered id is taken. -/
theorem numberedId_notMem {ids : List String} {top n : ℕ}
    (htop : maxNumericNodeSuffix ids = .ok top) (hn : top < n) : numberedId n ∉ ids := by
  intro hmem
  simp only [maxNumericNodeSuffix, bind_eq_ok, pure_eq_ok] at htop
  obtain ⟨suffixes, hsuffixes, rfl⟩ := htop
  have hsuffix : Nat.toDigits 10 n ∈ ids.filterMap numericSuffix :=
    List.mem_filterMap.mpr ⟨_, hmem, numericSuffix_numberedId n⟩
  have hvalue : intOfDigits (Nat.toDigits 10 n) = .ok n := by
    rw [intOfDigits_eq (isDigit_toDigits n), Nat.ofDigitChars_ten_toDigits]
  exact absurd (le_foldr_max ((mem_of_mapM hsuffixes).mpr ⟨_, hsuffix, hvalue⟩)) (Nat.not_le.mpr hn)

/-! ## The ids of the copies -/

theorem nextUniqueNodeId_eq {existing : List String} {candidate : ℕ}
    (h : numberedId candidate ∉ existing) (fuel : ℕ) :
    nextUniqueNodeId existing fuel candidate = (numberedId candidate, candidate + 1) := by
  cases fuel with
  | zero => rfl
  | succ fuel => exact if_neg h

theorem lookup_assignIds {existing ids : List String} {counter : ℕ} {id : String}
    (hfree : ∀ n, counter ≤ n → numberedId n ∉ existing) (hid : id ∈ ids) :
    (assignIds existing counter ids).lookup id = some (numberedId (counter + ids.idxOf id)) := by
  induction ids generalizing existing counter with
  | nil => cases hid
  | cons first ids ih =>
    rw [assignIds, nextUniqueNodeId_eq (hfree counter le_rfl)]
    by_cases heq : id = first
    · subst heq
      rw [List.lookup_cons_self, List.idxOf_cons_self]
      rfl
    · have hlater : ∀ n, counter + 1 ≤ n → numberedId n ∉ numberedId counter :: existing := by
        intro n hn hmem
        obtain hsame | hmem := List.mem_cons.mp hmem
        · have := numberedId_injective hsame
          omega
        · exact hfree n (by omega) hmem
      rw [MemoRuns.lookup_cons_of_ne _ _ heq, ih hlater ((List.mem_cons.mp hid).resolve_left heq),
        List.idxOf_cons_ne _ (Ne.symm heq)]
      congr 2
      omega

/-! ## Edges -/

/-- The nodes and ports that a node reads. -/
def GenomeNode.edges (node : GenomeNode) : List (String × String) := node.inputs.map parseInputRef

theorem map_fst_edges (node : GenomeNode) : node.edges.map Prod.fst = node.parents := by
  unfold GenomeNode.edges GenomeNode.parents
  rw [List.map_map]
  rfl

theorem parseInputRef_remap {idMap : String → String} {raw : String}
    (h : ∀ c ∈ (idMap (parseInputRef raw).1).toList, c ≠ ':') :
    parseInputRef (remapInputRef idMap raw) =
      (idMap (parseInputRef raw).1, (parseInputRef raw).2) := by
  unfold remapInputRef
  split
  · exact parseInputRef_of_port _ h
  next hplain =>
    rw [parseInputRef_of_plain h, parseInputRef_of_plain fun c hc heq => hplain (heq ▸ hc)]

/-- An edge to the old id goes to the new one. -/
def redirect (old new : String) (edge : String × String) : String × String :=
  if edge.1 = old then (new, edge.2) else edge

theorem parseInputRef_rewire {old new raw : String} (h : ∀ c ∈ new.toList, c ≠ ':') :
    parseInputRef (rewireRef old new raw) = redirect old new (parseInputRef raw) := by
  unfold rewireRef redirect
  split
  · exact parseInputRef_remap h
  · rfl

theorem ne_colon_of_mem_numberedId {n : ℕ} {c : Char} (h : c ∈ (numberedId n).toList) :
    c ≠ ':' := by
  rintro rfl
  rw [toList_numberedId] at h
  obtain hn | hdigit := List.mem_cons.mp h
  · exact absurd hn (by decide)
  · exact absurd (isDigit_toDigits n ':' hdigit) (by decide)

/-! ## Graphs that were accepted -/

/-- What the graft needs of a genome. -/
structure Connected (genome : Genome) : Prop where
  nodup : genome.ids.Nodup
  inputs : ∀ node ∈ genome.nodes, ∀ parent ∈ node.parents, parent ∈ genome.ids
  ordered : ∃ order, ParentsFirst genome.parents order ∧ ∀ id ∈ genome.ids, id ∈ order

theorem connected_of_valid {F : Type} [PriceFloat F] {genome : Genome} {maxDepth maxNodes : ℕ}
    (h : validateGenome F genome maxDepth maxNodes = .ok ()) : Connected genome := by
  obtain ⟨-, hnd, hnodes, hkahn, -, -, -⟩ := validateGenome_eq_ok.mp h
  refine ⟨hnd, fun node hnode parent hparent => ?_, kahn genome.ids genome.parents,
    kahn_parentsFirst hnd, fun id hid => ?_⟩
  · obtain ⟨raw, hraw, rfl⟩ := List.mem_map.mp hparent
    obtain ⟨source, -, hsource, -⟩ := (validateNode_ok (hnodes node hnode)).2.2.inputs raw hraw
    exact List.mem_map.mpr
      ⟨source, KeyedTables.mem_of_lookup hsource, KeyedTables.key_of_lookup hsource⟩
  · exact mem_kahn hnd hkahn hid

section Graph

variable {genome : Genome} {a b : String}

theorem exists_node_of_parents (h : b ∈ genome.parents a) :
    ∃ node ∈ genome.nodes, node.id = a ∧ b ∈ node.parents := by
  unfold Genome.parents at h
  cases hnode : genome.node? a with
  | none =>
    rw [hnode] at h
    cases h
  | some node =>
    rw [hnode] at h
    exact ⟨node, KeyedTables.mem_of_lookup hnode, KeyedTables.key_of_lookup hnode, h⟩

theorem isSome_nextParents : (nextParents genome a).isSome ↔ a ∈ genome.ids := by
  unfold nextParents
  rw [Option.isSome_map]
  constructor
  · intro h
    obtain ⟨node, hnode⟩ := Option.isSome_iff_exists.mp h
    exact List.mem_map.mpr ⟨node, KeyedTables.mem_of_lookup hnode, KeyedTables.key_of_lookup hnode⟩
  · intro h
    obtain ⟨node, hnode, rfl⟩ := List.mem_map.mp h
    by_contra hnone
    rw [Option.not_isSome_iff_eq_none] at hnone
    exact KeyedTables.lookup_eq_none.mp hnone node hnode rfl

/-- The subtree is all that its root is computed from. -/
theorem mem_subtreeNodeIds {root : String} :
    a ∈ subtreeNodeIds genome root ↔ Reaches genome.parents root a ∧ a ∈ genome.ids := by
  unfold subtreeNodeIds
  rw [mem_collect_iff fun _ => isSome_nextParents.mp, isSome_nextParents]
  rfl

theorem mem_sortedIds {ids : List String} : a ∈ sortedIds ids ↔ a ∈ ids :=
  (List.perm_insertionSort _ _).mem_iff

theorem nodup_sortedIds (root : String) : (sortedIds (subtreeNodeIds genome root)).Nodup :=
  (List.perm_insertionSort _ _).nodup_iff.mpr (collect_nodup fun _ => isSome_nextParents.mp)

variable (h : Connected genome)
include h

theorem Connected.parent_mem (hb : b ∈ genome.parents a) : b ∈ genome.ids := by
  obtain ⟨node, hnode, -, hparent⟩ := exists_node_of_parents hb
  exact h.inputs node hnode b hparent

theorem Connected.reaches_mem (ha : a ∈ genome.ids) (hreach : Reaches genome.parents a b) :
    b ∈ genome.ids := by
  induction hreach with
  | refl => exact ha
  | tail _ hedge _ => exact h.parent_mem hedge

theorem Connected.exists_rank : ∃ rank : String → ℕ, ∀ a b, b ∈ genome.parents a → rank b < rank a := by
  obtain ⟨order, horder, hall⟩ := h.ordered
  refine ⟨fun id => order.idxOf id, fun a b hb => ?_⟩
  obtain ⟨node, hnode, rfl, -⟩ := exists_node_of_parents hb
  exact idxOf_lt horder (hall _ (List.mem_map_of_mem hnode)) hb

end Graph

/-! ## The child that is built -/

/-- A node under another id, its edges mapped. -/
structure Renamed (node : GenomeNode) (id : String) (edge : String × String → String × String)
    (node' : GenomeNode) : Prop where
  id : node'.id = id
  kind : node'.kind = node.kind
  params : node'.params = node.params
  edges : node'.edges = node.edges.map edge

def Genome.outputs (genome : Genome) : List (String × String) :=
  [genome.entryLong, genome.entryShort, genome.exitLong, genome.exitShort].map parseInputRef

/-- The copy of an edge of the donor. -/
def copyEdge (copyOf : String → String) (edge : String × String) : String × String :=
  (copyOf edge.1, edge.2)

/-- The nodes of a rewired child, each with the edges that rewiring leaves it. -/
structure Built (recipient donor : Genome) (cutA cutB : String) (copyOf : String → String)
    (child : Genome) : Prop where
  ids : child.ids = existingIds recipient cutA ++ (sortedIds (subtreeNodeIds donor cutB)).map copyOf
  kept : ∀ node ∈ recipient.nodes, node.id ≠ cutA →
    ∃ node' ∈ child.nodes, Renamed node node.id (redirect cutA (copyOf cutB)) node'
  copied : ∀ node ∈ donor.nodes, Reaches donor.parents cutB node.id → ∃ node' ∈ child.nodes,
    Renamed node (copyOf node.id)
      (fun edge => redirect cutA (copyOf cutB) (copyEdge copyOf edge)) node'
  outputs : child.outputs = recipient.outputs.map (redirect cutA (copyOf cutB))

/-- The ids of the copies. -/
def copyId (recipient donor : Genome) (cutA cutB : String) (top : ℕ) (id : String) : String :=
  ((assignIds (existingIds recipient cutA) (top + 1)
    (sortedIds (subtreeNodeIds donor cutB))).lookup id).getD id

section Child

variable {recipient donor child : Genome} {cutA cutB : GenomeNode} {top : ℕ}

theorem lookup_copies (htop : maxNumericNodeSuffix (existingIds recipient cutA.id) = .ok top)
    {id : String} (hid : id ∈ subtreeNodeIds donor cutB.id) :
    (assignIds (existingIds recipient cutA.id) (top + 1)
        (sortedIds (subtreeNodeIds donor cutB.id))).lookup id =
      some (numberedId (top + 1 + (sortedIds (subtreeNodeIds donor cutB.id)).idxOf id)) :=
  lookup_assignIds (fun _ hn => numberedId_notMem htop hn) (mem_sortedIds.mpr hid)

theorem copyId_eq (htop : maxNumericNodeSuffix (existingIds recipient cutA.id) = .ok top)
    {id : String} (hid : id ∈ subtreeNodeIds donor cutB.id) :
    copyId recipient donor cutA.id cutB.id top id =
      numberedId (top + 1 + (sortedIds (subtreeNodeIds donor cutB.id)).idxOf id) := by
  unfold copyId
  rw [lookup_copies htop hid]
  rfl

theorem copyId_notMem (htop : maxNumericNodeSuffix (existingIds recipient cutA.id) = .ok top)
    {id : String} (hid : id ∈ subtreeNodeIds donor cutB.id) :
    copyId recipient donor cutA.id cutB.id top id ∉ existingIds recipient cutA.id := by
  rw [copyId_eq htop hid]
  exact numberedId_notMem htop (by omega)

theorem copyId_injOn (htop : maxNumericNodeSuffix (existingIds recipient cutA.id) = .ok top)
    {a b : String} (ha : a ∈ subtreeNodeIds donor cutB.id) (hb : b ∈ subtreeNodeIds donor cutB.id)
    (h : copyId recipient donor cutA.id cutB.id top a =
      copyId recipient donor cutA.id cutB.id top b) : a = b := by
  rw [copyId_eq htop ha, copyId_eq htop hb] at h
  have hidx := Nat.add_left_cancel (numberedId_injective h)
  exact (List.idxOf_inj (mem_sortedIds.mpr ha)).mp hidx

theorem ne_colon_of_mem_copyId
    (htop : maxNumericNodeSuffix (existingIds recipient cutA.id) = .ok top) {id : String}
    (hid : id ∈ subtreeNodeIds donor cutB.id) :
    ∀ c ∈ (copyId recipient donor cutA.id cutB.id top id).toList, c ≠ ':' := by
  rw [copyId_eq htop hid]
  exact fun c => ne_colon_of_mem_numberedId

theorem renamed_rewire {node : GenomeNode} {old new : String} (h : ∀ c ∈ new.toList, c ≠ ':') :
    Renamed node node.id (redirect old new)
      { node with inputs := node.inputs.map (rewireRef old new) } where
  id := rfl
  kind := rfl
  params := rfl
  edges := by
    unfold GenomeNode.edges
    rw [List.map_map, List.map_map]
    exact List.map_congr_left fun raw _ => parseInputRef_rewire h

theorem renamed_copy {node : GenomeNode} {idMap : String → String}
    (h : ∀ parent ∈ node.parents, ∀ c ∈ (idMap parent).toList, c ≠ ':') :
    Renamed node (idMap node.id) (copyEdge idMap) (copyNode idMap node) where
  id := rfl
  kind := rfl
  params := rfl
  edges := by
    unfold GenomeNode.edges copyNode
    rw [List.map_map, List.map_map]
    exact List.map_congr_left fun raw hraw => parseInputRef_remap (h _ (List.mem_map_of_mem hraw))

theorem Renamed.trans {a b c : GenomeNode} {id : String} {f g : String × String → String × String}
    (hab : Renamed a id f b) (hbc : Renamed b b.id g c) : Renamed a id (fun e => g (f e)) c where
  id := hbc.id.trans hab.id
  kind := hbc.kind.trans hab.kind
  params := hbc.params.trans hab.params
  edges := by
    rw [hbc.edges, hab.edges, List.map_map]
    rfl

theorem id_of_getNode {genome : Genome} {id : String} {node : GenomeNode}
    (h : genome.getNode id = .ok node) : node ∈ genome.nodes ∧ node.id = id := by
  unfold Genome.getNode at h
  cases hnode : genome.node? id with
  | none =>
    rw [hnode] at h
    cases h
  | some found =>
    rw [hnode] at h
    obtain rfl := Except.ok.inj h
    exact ⟨KeyedTables.mem_of_lookup hnode, KeyedTables.key_of_lookup hnode⟩

theorem map_id_sources {genome : Genome} {ids : List String} {sources : List GenomeNode}
    (h : ids.mapM genome.getNode = .ok sources) : sources.map GenomeNode.id = ids := by
  have hall := forall₂_of_mapM h
  clear h
  induction hall with
  | nil => rfl
  | cons hnode _ ih => rw [List.map_cons, (id_of_getNode hnode).2, ih]

theorem root_mem (hB : cutB ∈ donor.nodes) : cutB.id ∈ subtreeNodeIds donor cutB.id :=
  mem_subtreeNodeIds.mpr ⟨.refl, List.mem_map_of_mem hB⟩

theorem built_of_rewiredChild (hdonor : Connected donor) (hB : cutB ∈ donor.nodes)
    (h : rewiredChild recipient donor cutA cutB (subtreeNodeIds donor cutB.id) = .ok child) :
    ∃ top, maxNumericNodeSuffix (existingIds recipient cutA.id) = .ok top ∧
      Built recipient donor cutA.id cutB.id (copyId recipient donor cutA.id cutB.id top) child := by
  simp only [rewiredChild, bind_eq_ok, pure_eq_ok] at h
  obtain ⟨top, htop, sources, hsources, newRoot, hroot, rfl⟩ := h
  have hnewRoot : copyId recipient donor cutA.id cutB.id top cutB.id = newRoot := by
    have hlookup : (assignIds (existingIds recipient cutA.id) (top + 1)
        (sortedIds (subtreeNodeIds donor cutB.id))).lookup cutB.id = some newRoot := by
      unfold getKey at hroot
      split at hroot
      next hsome => rw [hsome, Except.ok.inj hroot]
      next => cases hroot
    unfold copyId
    rw [hlookup]
    rfl
  have hplain : ∀ c ∈ newRoot.toList, c ≠ ':' :=
    hnewRoot ▸ ne_colon_of_mem_copyId htop (root_mem hB)
  refine ⟨top, htop, ?_, ?_, ?_, ?_⟩
  · have hkept : (recipient.nodes.filter fun node => node.id ≠ cutA.id).map GenomeNode.id =
        existingIds recipient cutA.id := by
      unfold existingIds Genome.ids
      rw [List.filter_map]
      rfl
    have hcopies : sources.map (fun node =>
          copyId recipient donor cutA.id cutB.id top node.id) =
        (sortedIds (subtreeNodeIds donor cutB.id)).map
          (copyId recipient donor cutA.id cutB.id top) := by
      have hids := congrArg (List.map (copyId recipient donor cutA.id cutB.id top))
        (map_id_sources hsources)
      rw [List.map_map] at hids
      exact hids
    show ((_ ++ _ : List GenomeNode).map _).map GenomeNode.id = _
    rw [List.map_map, List.map_append, List.map_map]
    exact congrArg₂ (· ++ ·) hkept hcopies
  · intro node hnode hne
    rw [hnewRoot]
    refine ⟨_, List.mem_map_of_mem (List.mem_append_left _ ?_), renamed_rewire hplain⟩
    exact List.mem_filter.mpr ⟨hnode, decide_eq_true hne⟩
  · intro node hnode hreach
    rw [hnewRoot]
    have hmem : node ∈ sources := by
      refine (mem_of_mapM hsources).mpr ⟨node.id, mem_sortedIds.mpr (mem_subtreeNodeIds.mpr
        ⟨hreach, List.mem_map_of_mem hnode⟩), ?_⟩
      unfold Genome.getNode
      rw [node?_of_mem hdonor.nodup hnode]
    have hparents : ∀ parent ∈ node.parents, ∀ c ∈
        (copyId recipient donor cutA.id cutB.id top parent).toList, c ≠ ':' := by
      intro parent hparent
      have hedge : parent ∈ donor.parents node.id := by
        rw [parents_of_mem hdonor.nodup hnode]
        exact hparent
      exact ne_colon_of_mem_copyId htop (mem_subtreeNodeIds.mpr
        ⟨hreach.tail hedge, hdonor.parent_mem hedge⟩)
    refine ⟨_, List.mem_map_of_mem (List.mem_append_right _ (List.mem_map_of_mem hmem)), ?_⟩
    exact (renamed_copy hparents).trans (renamed_rewire hplain)
  · rw [hnewRoot]
    unfold Genome.outputs rewireConsumers
    simp only [List.map_cons, List.map_nil, parseInputRef_rewire hplain]

theorem exists_rewiredChild (hB : cutB ∈ donor.nodes)
    (htop : maxNumericNodeSuffix (existingIds recipient cutA.id) = .ok top) :
    ∃ child, rewiredChild recipient donor cutA cutB (subtreeNodeIds donor cutB.id) = .ok child := by
  have hsources : ∀ id ∈ sortedIds (subtreeNodeIds donor cutB.id),
      ∃ node, donor.getNode id = .ok node := by
    intro id hid
    obtain ⟨-, hmem⟩ := mem_subtreeNodeIds.mp (mem_sortedIds.mp hid)
    unfold Genome.getNode
    cases hnode : donor.node? id with
    | none =>
      obtain ⟨node, hnode', rfl⟩ := List.mem_map.mp hmem
      exact absurd rfl (KeyedTables.lookup_eq_none.mp hnode node hnode')
    | some node => exact ⟨node, rfl⟩
  obtain ⟨sources, hsources⟩ := exists_mapM_ok hsources
  have hroot : getKey (assignIds (existingIds recipient cutA.id) (top + 1)
      (sortedIds (subtreeNodeIds donor cutB.id))) cutB.id =
        .ok (numberedId (top + 1 + (sortedIds (subtreeNodeIds donor cutB.id)).idxOf cutB.id)) := by
    unfold getKey
    rw [lookup_copies htop (root_mem hB)]
  exact ⟨_, bind_eq_ok.mpr ⟨top, htop, bind_eq_ok.mpr ⟨sources, hsources,
    bind_eq_ok.mpr ⟨_, hroot, rfl⟩⟩⟩⟩

/-! ## Grafts -/

/-- The child has the whole subtree of the donor under fresh and distinct ids with every edge of it,
the edges of the recipient that went to the cut node go to the copy of the root, and all others are
there. -/
structure CaptureFree (recipient donor : Genome) (cutA cutB : String) (copyOf : String → String)
    (child : Genome) : Prop where
  fresh : ∀ id, Reaches donor.parents cutB id → copyOf id ∉ existingIds recipient cutA
  distinct : ∀ a b, Reaches donor.parents cutB a → Reaches donor.parents cutB b →
    copyOf a = copyOf b → a = b
  copied : ∀ node ∈ donor.nodes, Reaches donor.parents cutB node.id →
    ∃ node' ∈ child.nodes, Renamed node (copyOf node.id) (copyEdge copyOf) node'
  kept : ∀ node ∈ recipient.nodes, node.id ≠ cutA →
    ∃ node' ∈ child.nodes, Renamed node node.id (redirect cutA (copyOf cutB)) node'
  only : ∀ node' ∈ child.nodes, node'.id ∈ existingIds recipient cutA ∨
    ∃ id, Reaches donor.parents cutB id ∧ node'.id = copyOf id
  outputs : child.outputs = recipient.outputs.map (redirect cutA (copyOf cutB))
  nodup : child.ids.Nodup
  acyclic : Acyclic child.parents

section Built

variable {copyOf : String → String}

theorem Built.nodup (h : Built recipient donor cutA.id cutB.id copyOf child)
    (hrecipient : recipient.ids.Nodup)
    (hfresh : ∀ id ∈ subtreeNodeIds donor cutB.id, copyOf id ∉ existingIds recipient cutA.id)
    (hdistinct : ∀ a ∈ subtreeNodeIds donor cutB.id, ∀ b ∈ subtreeNodeIds donor cutB.id,
      copyOf a = copyOf b → a = b) : child.ids.Nodup := by
  rw [h.ids]
  refine List.nodup_append.mpr ⟨hrecipient.filter _, ?_, ?_⟩
  · refine List.Nodup.map_on (fun a ha b hb heq => ?_) (nodup_sortedIds cutB.id)
    exact hdistinct a (mem_sortedIds.mp ha) b (mem_sortedIds.mp hb) heq
  · intro a ha b hb heq
    obtain ⟨id, hid, rfl⟩ := List.mem_map.mp hb
    exact hfresh id (mem_sortedIds.mp hid) (heq ▸ ha)

theorem Renamed.exists_edge {node node' : GenomeNode} {id parent : String}
    {edge : String × String → String × String} (h : Renamed node id edge node')
    (hparent : parent ∈ node'.parents) : ∃ e ∈ node.edges, (edge e).1 = parent := by
  rw [← map_fst_edges, h.edges, List.map_map] at hparent
  exact List.mem_map.mp hparent

theorem fst_mem_parents {node : GenomeNode} {e : String × String} (h : e ∈ node.edges) :
    e.1 ∈ node.parents := by
  rw [← map_fst_edges]
  exact List.mem_map_of_mem h

theorem redirect_of_copy {e : String × String}
    (hcapture : ∀ id ∈ subtreeNodeIds donor cutB.id, copyOf id = cutA.id → id = cutB.id)
    (he : e.1 ∈ subtreeNodeIds donor cutB.id) :
    redirect cutA.id (copyOf cutB.id) (copyEdge copyOf e) = copyEdge copyOf e := by
  unfold redirect
  split
  next heq =>
    rw [← hcapture e.1 he heq]
    rfl
  next => rfl

theorem mem_existingIds {id : String} :
    id ∈ existingIds recipient cutA.id ↔ id ∈ recipient.ids ∧ id ≠ cutA.id := by
  unfold existingIds
  rw [List.mem_filter, decide_eq_true_iff]

/-- A rank of the child: that of the donor for the copies, and above them that of the recipient. -/
def graftRank (rankA rankB : String → ℕ) (subtree : List String) (copyOf : String → String)
    (id : String) : ℕ :=
  match subtree.find? fun d => copyOf d = id with
  | some d => rankB d
  | none => (subtree.map rankB).foldr max 0 + 1 + rankA id

theorem graftRank_copy (rankA rankB : String → ℕ) {subtree : List String}
    (hdistinct : ∀ a ∈ subtree, ∀ b ∈ subtree, copyOf a = copyOf b → a = b) {d : String}
    (hd : d ∈ subtree) : graftRank rankA rankB subtree copyOf (copyOf d) = rankB d := by
  unfold graftRank
  split
  next d' hfind =>
    have heq : copyOf d' = copyOf d := by simpa using List.find?_some hfind
    rw [hdistinct d' (List.mem_of_find?_eq_some hfind) d hd heq]
  next hnone => exact absurd (List.find?_eq_none.mp hnone d hd) (by simp)

theorem graftRank_kept (rankA rankB : String → ℕ) {subtree existing : List String}
    (hfresh : ∀ d ∈ subtree, copyOf d ∉ existing) {a : String} (ha : a ∈ existing) :
    graftRank rankA rankB subtree copyOf a = (subtree.map rankB).foldr max 0 + 1 + rankA a := by
  unfold graftRank
  split
  next d hfind =>
    have heq : copyOf d = a := by simpa using List.find?_some hfind
    exact absurd (heq ▸ ha) (hfresh d (List.mem_of_find?_eq_some hfind))
  next => rfl

/-- In the child an edge falls in a rank that puts the copies below the nodes of the recipient, if no
copy of a node below the root has the id of the cut node. -/
theorem Built.acyclic (h : Built recipient donor cutA.id cutB.id copyOf child)
    (hrecipient : Connected recipient) (hdonor : Connected donor) (hB : cutB ∈ donor.nodes)
    (hnd : child.ids.Nodup)
    (hfresh : ∀ id ∈ subtreeNodeIds donor cutB.id, copyOf id ∉ existingIds recipient cutA.id)
    (hdistinct : ∀ a ∈ subtreeNodeIds donor cutB.id, ∀ b ∈ subtreeNodeIds donor cutB.id,
      copyOf a = copyOf b → a = b)
    (hcapture : ∀ id ∈ subtreeNodeIds donor cutB.id, copyOf id = cutA.id → id = cutB.id) :
    Acyclic child.parents := by
  obtain ⟨rankA, hrankA⟩ := hrecipient.exists_rank
  obtain ⟨rankB, hrankB⟩ := hdonor.exists_rank
  have hcopy := fun d => graftRank_copy (d := d) rankA rankB hdistinct
  have hkept := fun a => graftRank_kept (a := a) rankA rankB hfresh
  refine acyclic_of_rank
    (graftRank rankA rankB (subtreeNodeIds donor cutB.id) copyOf) fun a b hb => ?_
  obtain ⟨node', hnode', rfl, hparent⟩ := exists_node_of_parents hb
  have hid : node'.id ∈ child.ids := List.mem_map_of_mem hnode'
  rw [h.ids] at hid
  obtain hid | hid := List.mem_append.mp hid
  · -- a node of the recipient
    obtain ⟨hmem, hne⟩ := mem_existingIds.mp hid
    obtain ⟨node, hnode, heq⟩ := List.mem_map.mp hmem
    obtain ⟨node'', hnode'', hrenamed⟩ := h.kept node hnode (heq ▸ hne)
    obtain rfl := KeyedTables.eq_of_mem_of_key hnd hnode'' hnode' (hrenamed.id.trans heq)
    obtain ⟨e, he, rfl⟩ := hrenamed.exists_edge hparent
    rw [hkept _ hid]
    unfold redirect
    split
    · have hle := le_foldr_max (List.mem_map_of_mem (f := rankB) (root_mem hB))
      show graftRank rankA rankB _ copyOf (copyOf cutB.id) < _
      rw [hcopy _ (root_mem hB)]
      omega
    next hcut =>
      have hedge : e.1 ∈ recipient.parents node''.id := by
        rw [hrenamed.id, parents_of_mem hrecipient.nodup hnode]
        exact fst_mem_parents he
      have hlt := hrankA _ _ hedge
      rw [hkept _ (mem_existingIds.mpr ⟨hrecipient.parent_mem hedge, hcut⟩)]
      omega
  · -- a copy
    obtain ⟨d, hd, heq⟩ := List.mem_map.mp hid
    have hsub := mem_sortedIds.mp hd
    obtain ⟨hreach, hmem⟩ := mem_subtreeNodeIds.mp hsub
    obtain ⟨node, hnode, rfl⟩ := List.mem_map.mp hmem
    obtain ⟨node'', hnode'', hrenamed⟩ := h.copied node hnode hreach
    obtain rfl := KeyedTables.eq_of_mem_of_key hnd hnode'' hnode' (hrenamed.id.trans heq)
    obtain ⟨e, he, rfl⟩ := hrenamed.exists_edge hparent
    have hedge : e.1 ∈ donor.parents node.id := by
      rw [parents_of_mem hdonor.nodup hnode]
      exact fst_mem_parents he
    have hsource : e.1 ∈ subtreeNodeIds donor cutB.id :=
      mem_subtreeNodeIds.mpr ⟨hreach.tail hedge, hdonor.parent_mem hedge⟩
    rw [redirect_of_copy hcapture hsource, hrenamed.id, hcopy _ hsub]
    show graftRank rankA rankB _ copyOf (copyOf e.1) < _
    rw [hcopy _ hsource]
    exact hrankB _ _ hedge

theorem Built.copy_edge (h : Built recipient donor cutA.id cutB.id copyOf child)
    (hdonor : Connected donor) (hnd : child.ids.Nodup) {x y : String}
    (hx : x ∈ subtreeNodeIds donor cutB.id) (hy : y ∈ donor.parents x) :
    (if copyOf y = cutA.id then copyOf cutB.id else copyOf y) ∈ child.parents (copyOf x) := by
  obtain ⟨hreach, hmem⟩ := mem_subtreeNodeIds.mp hx
  obtain ⟨node, hnode, rfl⟩ := List.mem_map.mp hmem
  obtain ⟨node', hnode', hrenamed⟩ := h.copied node hnode hreach
  rw [parents_of_mem hdonor.nodup hnode, ← map_fst_edges] at hy
  obtain ⟨e, he, rfl⟩ := List.mem_map.mp hy
  rw [← hrenamed.id, parents_of_mem hnd hnode', ← map_fst_edges, hrenamed.edges, List.map_map]
  refine List.mem_map.mpr ⟨e, he, ?_⟩
  show (redirect cutA.id (copyOf cutB.id) (copyEdge copyOf e)).1 = _
  unfold redirect copyEdge
  split <;> rfl

/-- A copy below the root that has the id of the cut node closes a cycle: its consumers read the copy
of the root. -/
theorem Built.cycle (h : Built recipient donor cutA.id cutB.id copyOf child)
    (hdonor : Connected donor) (hnd : child.ids.Nodup)
    (hdistinct : ∀ a ∈ subtreeNodeIds donor cutB.id, ∀ b ∈ subtreeNodeIds donor cutB.id,
      copyOf a = copyOf b → a = b) {d : String} (hd : d ∈ subtreeNodeIds donor cutB.id)
    (hne : d ≠ cutB.id) (hcapture : copyOf d = cutA.id) : ¬ Acyclic child.parents := by
  intro hacyclic
  obtain ⟨hreach, hmem⟩ := mem_subtreeNodeIds.mp hd
  obtain heq | ⟨c, hc, hedge⟩ := Relation.ReflTransGen.cases_tail hreach
  · exact hne heq
  have hsub : ∀ {x y}, x ∈ subtreeNodeIds donor cutB.id → y ∈ donor.parents x →
      y ∈ subtreeNodeIds donor cutB.id := by
    intro x y hx hy
    obtain ⟨hxreach, -⟩ := mem_subtreeNodeIds.mp hx
    exact mem_subtreeNodeIds.mpr ⟨hxreach.tail hy, hdonor.parent_mem hy⟩
  -- the path to the consumer does not pass `d`, so its copy is in the child
  have hpath : ∀ y, Reaches donor.parents cutB.id y → Reaches donor.parents y c →
      cutB.id ∈ subtreeNodeIds donor cutB.id →
      y ∈ subtreeNodeIds donor cutB.id ∧ Reaches child.parents (copyOf cutB.id) (copyOf y) := by
    intro y hy hyc hroot
    induction hy with
    | refl => exact ⟨hroot, .refl⟩
    | @tail x y _ hxy ih =>
      obtain ⟨hx, hcopies⟩ := ih (Relation.ReflTransGen.head hxy hyc)
      have hy := hsub hx hxy
      have hyd : y ≠ d := by
        rintro rfl
        obtain ⟨rank, hrank⟩ := hdonor.exists_rank
        exact acyclic_of_rank rank hrank y (Relation.TransGen.tail' hyc hedge)
      have hstep := h.copy_edge hdonor hnd hx hxy
      rw [if_neg fun heq => hyd (hdistinct y hy d hd (heq.trans hcapture.symm))] at hstep
      exact ⟨hy, hcopies.tail hstep⟩
  have hroot : cutB.id ∈ subtreeNodeIds donor cutB.id := by
    refine mem_subtreeNodeIds.mpr ⟨.refl, ?_⟩
    obtain heq | ⟨b, hb, -⟩ := Relation.ReflTransGen.cases_head hreach
    · exact absurd heq.symm hne
    · obtain ⟨node, hnode, hid, -⟩ := exists_node_of_parents hb
      exact hid ▸ List.mem_map_of_mem hnode
  obtain ⟨hcsub, hcopies⟩ := hpath c hc .refl hroot
  have hback := h.copy_edge hdonor hnd hcsub hedge
  rw [if_pos hcapture] at hback
  exact hacyclic _ (Relation.TransGen.tail' hcopies hback)

theorem Built.captureFree (h : Built recipient donor cutA.id cutB.id copyOf child)
    (hrecipient : Connected recipient) (hdonor : Connected donor) (hB : cutB ∈ donor.nodes)
    (hfresh : ∀ id ∈ subtreeNodeIds donor cutB.id, copyOf id ∉ existingIds recipient cutA.id)
    (hdistinct : ∀ a ∈ subtreeNodeIds donor cutB.id, ∀ b ∈ subtreeNodeIds donor cutB.id,
      copyOf a = copyOf b → a = b)
    (hcapture : ∀ id ∈ subtreeNodeIds donor cutB.id, copyOf id = cutA.id → id = cutB.id) :
    CaptureFree recipient donor cutA.id cutB.id copyOf child := by
  have hsub : ∀ id, Reaches donor.parents cutB.id id → id ∈ subtreeNodeIds donor cutB.id :=
    fun id hreach => mem_subtreeNodeIds.mpr
      ⟨hreach, hdonor.reaches_mem (List.mem_map_of_mem hB) hreach⟩
  have hnd := h.nodup hrecipient.nodup hfresh hdistinct
  refine ⟨fun id hreach => hfresh id (hsub id hreach),
    fun a b ha hb => hdistinct a (hsub a ha) b (hsub b hb), fun node hnode hreach => ?_, h.kept,
    fun node' hnode' => ?_, h.outputs, hnd,
    h.acyclic hrecipient hdonor hB hnd hfresh hdistinct hcapture⟩
  · obtain ⟨node', hnode', hrenamed⟩ := h.copied node hnode hreach
    refine ⟨node', hnode', hrenamed.id, hrenamed.kind, hrenamed.params, ?_⟩
    rw [hrenamed.edges]
    refine List.map_congr_left fun e he => redirect_of_copy hcapture (hsub _ (hreach.tail ?_))
    rw [parents_of_mem hdonor.nodup hnode]
    exact fst_mem_parents he
  · have hid : node'.id ∈ child.ids := List.mem_map_of_mem hnode'
    rw [h.ids] at hid
    refine (List.mem_append.mp hid).imp_right fun hid => ?_
    obtain ⟨id, hmem, heq⟩ := List.mem_map.mp hid
    exact ⟨id, (mem_subtreeNodeIds.mp (mem_sortedIds.mp hmem)).1, heq.symm⟩

end Built

end Child

/-- A crossover is capture-free exactly when the numbers of the recipient's other ids can be read and
no copy below the root gets the id of the cut node. -/
theorem crossover_captureFree_iff (F : Type) [PriceFloat F] (recipient donor : Genome)
    (cutA cutB : GenomeNode) (maxDepth maxNodes : ℕ)
    (hrecipient : validateGenome F recipient maxDepth maxNodes = .ok ())
    (hdonor : validateGenome F donor maxDepth maxNodes = .ok ()) (hB : cutB ∈ donor.nodes) :
    (∃ child copyOf,
        rewiredChild recipient donor cutA cutB (subtreeNodeIds donor cutB.id) = .ok child ∧
        CaptureFree recipient donor cutA.id cutB.id copyOf child) ↔
      ∃ top, maxNumericNodeSuffix (existingIds recipient cutA.id) = .ok top ∧
        ∀ id ∈ subtreeNodeIds donor cutB.id, id ≠ cutB.id →
          cutA.id ≠ numberedId (top + 1 + (sortedIds (subtreeNodeIds donor cutB.id)).idxOf id) := by
  have hconnected := connected_of_valid hrecipient
  have hconnected' := connected_of_valid hdonor
  constructor
  · rintro ⟨child, copyOf, hchild, hfree⟩
    obtain ⟨top, htop, hbuilt⟩ := built_of_rewiredChild hconnected' hB hchild
    refine ⟨top, htop, fun id hid hne heq => ?_⟩
    have hcapture : copyId recipient donor cutA.id cutB.id top id = cutA.id :=
      (copyId_eq htop hid).trans heq.symm
    exact hbuilt.cycle hconnected' hfree.nodup (fun a ha b hb => copyId_injOn htop ha hb) hid hne
      hcapture hfree.acyclic
  · rintro ⟨top, htop, hcapture⟩
    obtain ⟨child, hchild⟩ := exists_rewiredChild hB htop
    obtain ⟨top', htop', hbuilt⟩ := built_of_rewiredChild hconnected' hB hchild
    obtain rfl := Except.ok.inj (htop.symm.trans htop')
    refine ⟨child, _, hchild, hbuilt.captureFree hconnected hconnected' hB
      (fun id hid => copyId_notMem htop hid) (fun a ha b hb => copyId_injOn htop ha hb) ?_⟩
    intro id hid heq
    by_contra hne
    rw [copyId_eq htop hid] at heq
    exact hcapture id hid hne heq.symm

/-! ## One round is all -/

theorem pruneSubtreeLeaves_eq (genome : Genome) (root : String) :
    pruneSubtreeLeaves (subtreeNodeIds genome root) genome root = subtreeNodeIds genome root := by
  have hnone : (subtreeNodeIds genome root).find? (fun id =>
      id ≠ root ∧ dependents genome (subtreeNodeIds genome root) id = []) = none := by
    refine List.find?_eq_none.mpr fun id hid hleaf => ?_
    obtain ⟨hne, hnil⟩ := of_decide_eq_true hleaf
    obtain ⟨hreach, -⟩ := mem_subtreeNodeIds.mp hid
    obtain heq | ⟨c, hc, hedge⟩ := Relation.ReflTransGen.cases_tail hreach
    · exact hne heq
    · obtain ⟨node, hnode, hcid, -⟩ := exists_node_of_parents hedge
      have hdependent : c ∈ dependents genome (subtreeNodeIds genome root) id :=
        List.mem_filter.mpr ⟨mem_subtreeNodeIds.mpr ⟨hc, hcid ▸ List.mem_map_of_mem hnode⟩,
          decide_eq_true hedge⟩
      rw [hnil] at hdependent
      cases hdependent
  unfold pruneSubtreeLeaves
  rw [hnone]

/-! ## Two averages -/

section Averages

def averageNode (id : String) (period : ℤ) : GenomeNode where
  id := id
  kind := .indEma
  params := [("period", .lit (.int period))]
  inputs := ["n1"]
  keysNodup := List.nodup_singleton "period"

/-- The close against its average. -/
def averageGenome (id above below : String) (period : ℤ) : Genome where
  nodes :=
    [{ id := "n1", kind := .sourceClose }, averageNode id period,
      { id := above, kind := .cmpGt, inputs := ["n1", id] },
      { id := below, kind := .cmpLt, inputs := ["n1", id] }]
  entryLong := above
  entryShort := below
  exitLong := below
  exitShort := above

theorem crossover_captureFree_iff_n9 :
    ∃ child copyOf, rewiredChild (averageGenome "n9" "n2" "n3" 5) (averageGenome "n2" "n3" "n4" 3)
        (averageNode "n9" 5) (averageNode "n2" 3)
        (subtreeNodeIds (averageGenome "n2" "n3" "n4" 3) "n2") = .ok child ∧
      CaptureFree (averageGenome "n9" "n2" "n3" 5) (averageGenome "n2" "n3" "n4" 3) "n9" "n2" copyOf
        child := by
  refine (crossover_captureFree_iff (Option ℚ) (averageGenome "n9" "n2" "n3" 5)
    (averageGenome "n2" "n3" "n4" 3) (averageNode "n9" 5) (averageNode "n2" 3) 12 24
    (toBool_eq_true.mp (by decide +kernel)) (toBool_eq_true.mp (by decide +kernel))
    (by simp [averageGenome])).mpr ⟨3, eq_ok_of_toOption (by decide +kernel), by decide +kernel⟩

/-- The largest number but that of the cut node `n4` is three, so the copy of the close is `n4`, and
the copy of the average, which reads it, is made to read itself. -/
theorem fresh_id_captured :
    validateGenome (Option ℚ) (averageGenome "n4" "n2" "n3" 5) 12 24 = .ok () ∧
      validateGenome (Option ℚ) (averageGenome "n2" "n3" "n4" 3) 12 24 = .ok () ∧
      (compatibleCutNodes (averageNode "n4" 5)
        (cuttableNodes (averageGenome "n2" "n3" "n4" 3))).map GenomeNode.id = ["n2"] ∧
      ¬ ∃ child copyOf, rewiredChild (averageGenome "n4" "n2" "n3" 5)
          (averageGenome "n2" "n3" "n4" 3) (averageNode "n4" 5) (averageNode "n2" 3)
          (subtreeNodeIds (averageGenome "n2" "n3" "n4" 3) "n2") = .ok child ∧
        CaptureFree (averageGenome "n4" "n2" "n3" 5) (averageGenome "n2" "n3" "n4" 3) "n4" "n2"
          copyOf child := by
  refine ⟨toBool_eq_true.mp (by decide +kernel), toBool_eq_true.mp (by decide +kernel),
    by decide +kernel, ?_⟩
  rintro ⟨child, copyOf, hchild, hfree⟩
  have hparents : (rewiredChild (averageGenome "n4" "n2" "n3" 5) (averageGenome "n2" "n3" "n4" 3)
      (averageNode "n4" 5) (averageNode "n2" 3)
      (subtreeNodeIds (averageGenome "n2" "n3" "n4" 3) "n2")).toOption.map
        (fun child => child.parents "n5") = some ["n5"] := by decide +kernel
  rw [hchild] at hparents
  have hself : "n5" ∈ child.parents "n5" := by
    rw [show child.parents "n5" = ["n5"] from Option.some.inj hparents]
    exact List.mem_cons_self
  exact hfree.acyclic "n5" (.single hself)

end Averages

end QBackend.GenomeDsl
