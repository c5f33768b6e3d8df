import QBackend.OrderedSeries
import Mathlib.Data.List.Dedup
import Mathlib.Data.List.Nodup
import Mathlib.Data.Prod.Lex

/-!
# Rows in partitions, merged by a sort that need not be stable

Rows are kept in files, one for each partition of the keys. A write sends the rows of each partition
to its file, where old and new rows are sorted by the key and the last row of each key is kept. Of
the sort only this is known: it returns the rows in some order that the keys allow. Which of several
rows with one key is kept is then open, unless they are equal.
-/

namespace QBackend.SortedPartitions

open OrderedSeries

variable {Row Key Part : Type*} [LinearOrder Key]

/-- A sort by the key; rows with the same key come in any order. -/
structure Sorts (key : Row → Key) (sort : List Row → List Row) : Prop where
  perm : ∀ rows, (sort rows).Perm rows
  sorted : ∀ rows, (sort rows).Pairwise (fun r s => key r ≤ key s)

/-- The last row of each key. -/
def keepLast (key : Row → Key) : List Row → List Row
  | [] => []
  | r :: rest => if key r ∈ rest.map key then keepLast key rest else r :: keepLast key rest

/-- Rows that share a key are equal. -/
def NoConflict (key : Row → Key) (rows : List Row) : Prop :=
  ∀ r ∈ rows, ∀ s ∈ rows, key r = key s → r = s

section KeepLast

variable {key : Row → Key} {rows : List Row} {r : Row}

theorem keepLast_sublist (key : Row → Key) (rows : List Row) : (keepLast key rows).Sublist rows := by
  induction rows with
  | nil => exact List.Sublist.refl _
  | cons x rest ih =>
    unfold keepLast
    split
    · exact ih.cons x
    · exact ih.cons_cons x

theorem exists_mem_keepLast (h : r ∈ rows) : ∃ s ∈ keepLast key rows, key s = key r := by
  induction rows generalizing r with
  | nil => cases h
  | cons x rest ih =>
    unfold keepLast
    split
    next hlater =>
      obtain rfl | h := List.mem_cons.mp h
      · obtain ⟨t, ht, hkey⟩ := List.mem_map.mp hlater
        obtain ⟨s, hs, hst⟩ := ih ht
        exact ⟨s, hs, hst.trans hkey⟩
      · exact ih h
    next hlast =>
      obtain rfl | h := List.mem_cons.mp h
      · exact ⟨r, List.mem_cons_self, rfl⟩
      · obtain ⟨s, hs, hkey⟩ := ih h
        exact ⟨s, List.mem_cons_of_mem _ hs, hkey⟩

/-- Where no other row comes after one with its key, that row is kept. -/
theorem mem_keepLast (h : rows.Pairwise fun s t => key s = key t → s = r → t = r)
    (hr : r ∈ rows) : r ∈ keepLast key rows := by
  induction rows with
  | nil => cases hr
  | cons x rest ih =>
    obtain ⟨hx, hrest⟩ := List.pairwise_cons.mp h
    unfold keepLast
    by_cases hmem : r ∈ rest
    · split
      · exact ih hrest hmem
      · exact List.mem_cons_of_mem _ (ih hrest hmem)
    · have hxr : x = r := ((List.mem_cons.mp hr).resolve_right hmem).symm
      have hlast : key x ∉ rest.map key := by
        intro hlater
        obtain ⟨t, ht, hkey⟩ := List.mem_map.mp hlater
        exact hmem (hx t ht hkey.symm hxr ▸ ht)
      rw [if_neg hlast, hxr]
      exact List.mem_cons_self

theorem keepLast_ordered (h : rows.Pairwise fun r s => key r ≤ key s) :
    Ordered key (keepLast key rows) := by
  induction rows with
  | nil => exact List.Pairwise.nil
  | cons x rest ih =>
    obtain ⟨hx, hrest⟩ := List.pairwise_cons.mp h
    unfold keepLast
    split
    · exact ih hrest
    next hlast =>
      refine List.pairwise_cons.mpr ⟨fun s hs => ?_, ih hrest⟩
      have hs' : s ∈ rest := (keepLast_sublist key rest).subset hs
      exact lt_of_le_of_ne (hx s hs') fun heq => hlast (heq ▸ List.mem_map_of_mem hs')

end KeepLast

/-! ## A merge -/

/-- Old rows, then new rows, sorted; the last row of each key stays. -/
def mergeFrame (key : Row → Key) (sort : List Row → List Row) (existing incoming : List Row) :
    List Row :=
  keepLast key (sort (existing ++ incoming))

section Merge

variable {key : Row → Key} {sort : List Row → List Row} (hsort : Sorts key sort)
  {existing incoming : List Row} {r : Row}

include hsort

theorem mergeFrame_ordered : Ordered key (mergeFrame key sort existing incoming) :=
  keepLast_ordered (hsort.sorted _)

theorem mem_of_mem_mergeFrame (h : r ∈ mergeFrame key sort existing incoming) :
    r ∈ existing ∨ r ∈ incoming :=
  List.mem_append.mp ((hsort.perm _).subset ((keepLast_sublist key _).subset h))

theorem exists_mem_mergeFrame (h : r ∈ existing ∨ r ∈ incoming) :
    ∃ s ∈ mergeFrame key sort existing incoming, key s = key r :=
  exists_mem_keepLast ((hsort.perm _).symm.subset (List.mem_append.mpr h))

/-- Sorting brings rows in strict order back from any order. -/
theorem sort_eq_of_perm {rows : List Row} (hordered : Ordered key rows)
    (hperm : incoming.Perm rows) : sort incoming = rows := by
  have hsame : (sort incoming).Perm rows := (hsort.perm _).trans hperm
  apply hsame.eq_of_pairwise
  · intro a b ha hb hab hba
    exact hordered.eq_of_key (hsame.subset ha) hb (le_antisymm hab hba)
  · exact hsort.sorted incoming
  · exact hordered.imp le_of_lt

end Merge

/-! ## Files -/

section Files

variable [DecidableEq Part] (key : Row → Key) (part : Key → Part) (sort : List Row → List Row)

/-- The rows merged into the files of their partitions; the other files stay as they are. -/
def writeRows (files : Part → List Row) (rows : List Row) : Part → List Row := fun p =>
  match rows.filter fun r => part (key r) = p with
  | [] => files p
  | incoming => mergeFrame key sort (files p) incoming

def writeBatches (batches : List (List Row)) : Part → List Row :=
  batches.foldl (writeRows key part sort) fun _ => []

/-- The rows of the files between two keys. -/
def readRows (files : Part → List Row) (parts : List Part) (lo hi : Key) : List Row :=
  sort ((parts.flatMap files).filter fun r => lo ≤ key r ∧ key r ≤ hi)

/-- The row of a key that was written last. -/
def lastWrite (written : List Row) (k : Key) : Option Row :=
  written.reverse.find? fun r => key r = k

/-- The files hold, in order, rows of their own that were written, and one for each key written. -/
structure Stored (files : Part → List Row) (written : List Row) : Prop where
  ordered : ∀ p, Ordered key (files p)
  sound : ∀ p, ∀ r ∈ files p, part (key r) = p ∧ r ∈ written
  complete : ∀ r ∈ written, ∃ s ∈ files (part (key r)), key s = key r

end Files

section Writes

variable [DecidableEq Part] {key : Row → Key} {part : Key → Part} {sort : List Row → List Row}
  {files : Part → List Row} {written rows : List Row} {batches : List (List Row)} {r x : Row}
  {p : Part}

theorem writeRows_of_nil (h : (rows.filter fun r => part (key r) = p) = []) :
    writeRows key part sort files rows p = files p := by
  simp only [writeRows, h]

theorem writeRows_of_ne_nil (h : (rows.filter fun r => part (key r) = p) ≠ []) :
    writeRows key part sort files rows p =
      mergeFrame key sort (files p) (rows.filter fun r => part (key r) = p) := by
  unfold writeRows
  split
  next hnil => exact absurd hnil h
  next => rfl

omit [LinearOrder Key] in
theorem filter_part_ne_nil (h : r ∈ rows) :
    (rows.filter fun s => part (key s) = part (key r)) ≠ [] :=
  List.ne_nil_of_mem (List.mem_filter.mpr ⟨h, by simp⟩)

theorem Stored.write (hsort : Sorts key sort) (h : Stored key part files written)
    (rows : List Row) :
    Stored key part (writeRows key part sort files rows) (written ++ rows) where
  ordered p := by
    by_cases hnil : (rows.filter fun r => part (key r) = p) = []
    · rw [writeRows_of_nil hnil]
      exact h.ordered p
    · rw [writeRows_of_ne_nil hnil]
      exact mergeFrame_ordered hsort
  sound p r hr := by
    by_cases hnil : (rows.filter fun r => part (key r) = p) = []
    · rw [writeRows_of_nil hnil] at hr
      exact ⟨(h.sound p r hr).1, List.mem_append_left _ (h.sound p r hr).2⟩
    · rw [writeRows_of_ne_nil hnil] at hr
      obtain hold | hnew := mem_of_mem_mergeFrame hsort hr
      · exact ⟨(h.sound p r hold).1, List.mem_append_left _ (h.sound p r hold).2⟩
      · obtain ⟨hmem, hpart⟩ := List.mem_filter.mp hnew
        exact ⟨of_decide_eq_true hpart, List.mem_append_right _ hmem⟩
  complete r hr := by
    by_cases hnil : (rows.filter fun s => part (key s) = part (key r)) = []
    · rw [writeRows_of_nil hnil]
      have hold : r ∈ written :=
        (List.mem_append.mp hr).resolve_right fun hnew => filter_part_ne_nil hnew hnil
      exact h.complete r hold
    · rw [writeRows_of_ne_nil hnil]
      obtain hold | hnew := List.mem_append.mp hr
      · obtain ⟨s, hs, hkey⟩ := h.complete r hold
        obtain ⟨t, ht, hkey'⟩ := exists_mem_mergeFrame hsort (Or.inl hs)
        exact ⟨t, ht, hkey'.trans hkey⟩
      · exact exists_mem_mergeFrame hsort (Or.inr (List.mem_filter.mpr ⟨hnew, by simp⟩))

theorem stored_writeBatches (hsort : Sorts key sort) (batches : List (List Row)) :
    Stored key part (writeBatches key part sort batches) batches.flatten := by
  have hrun : ∀ (files : Part → List Row) (written : List Row),
      Stored key part files written →
      Stored key part (batches.foldl (writeRows key part sort) files)
        (written ++ batches.flatten) := by
    induction batches with
    | nil =>
      intro files written h
      simpa using h
    | cons rows batches ih =>
      intro files written h
      rw [List.flatten_cons, ← List.append_assoc]
      exact ih _ _ (h.write hsort rows)
  have hstart : Stored key part (fun _ => []) ([] : List Row) :=
    ⟨fun _ => List.Pairwise.nil, by simp, by simp⟩
  exact hrun _ [] hstart

omit [DecidableEq Part] in
theorem Stored.mem_iff (h : Stored key part files written) (hfree : NoConflict key written) :
    r ∈ files (part (key r)) ↔ r ∈ written := by
  constructor
  · exact fun hr => (h.sound _ r hr).2
  · intro hr
    obtain ⟨s, hs, hkey⟩ := h.complete r hr
    rw [← hfree s (h.sound _ s hs).2 r hr hkey]
    exact hkey.symm ▸ hs

omit [DecidableEq Part] in
theorem Stored.unique {files' : Part → List Row} {written' : List Row}
    (h : Stored key part files written) (h' : Stored key part files' written')
    (hsame : ∀ r, r ∈ written ↔ r ∈ written') (hfree : NoConflict key written) :
    files = files' := by
  have hfree' : NoConflict key written' := fun r hr s hs =>
    hfree r ((hsame r).mpr hr) s ((hsame s).mpr hs)
  funext p
  apply (h.ordered p).eq_of_mem_iff (h'.ordered p)
  intro r
  constructor
  · intro hr
    obtain ⟨rfl, hmem⟩ := h.sound p r hr
    exact (h'.mem_iff hfree').mpr ((hsame r).mp hmem)
  · intro hr
    obtain ⟨rfl, hmem⟩ := h'.sound p r hr
    exact (h.mem_iff hfree).mpr ((hsame r).mpr hmem)

theorem mem_writeBatches_of_last (hsort : Sorts key sort)
    (hlast : ∀ rows, (sort rows).Pairwise fun s t => key s = key t → s = x → t = x)
    (hx : x ∈ batches.flatten) : x ∈ writeBatches key part sort batches (part (key x)) := by
  have hmerge : ∀ existing incoming, x ∈ existing ∨ x ∈ incoming →
      x ∈ mergeFrame key sort existing incoming := fun existing incoming h =>
    mem_keepLast (hlast _) ((hsort.perm _).symm.subset (List.mem_append.mpr h))
  have hrun : ∀ files : Part → List Row, x ∈ files (part (key x)) ∨ x ∈ batches.flatten →
      x ∈ batches.foldl (writeRows key part sort) files (part (key x)) := by
    clear hx
    induction batches with
    | nil =>
      intro files h
      simpa using h
    | cons rows batches ih =>
      intro files h
      rw [List.foldl_cons]
      apply ih
      by_cases hnew : x ∈ rows
      · left
        rw [writeRows_of_ne_nil (filter_part_ne_nil hnew)]
        exact hmerge _ _ (Or.inr (List.mem_filter.mpr ⟨hnew, by simp⟩))
      · rw [List.flatten_cons, List.mem_append] at h
        obtain hold | hlater := h.imp_right fun h => h.resolve_left hnew
        · left
          by_cases hnil : (rows.filter fun s => part (key s) = part (key x)) = []
          · rwa [writeRows_of_nil hnil]
          · rw [writeRows_of_ne_nil hnil]
            exact hmerge _ _ (Or.inl hold)
        · exact Or.inr hlater
  exact hrun _ (Or.inr hx)

end Writes

/-! ## Reads -/

section Reads

variable [LinearOrder Part] {key : Row → Key} {part : Key → Part} {sort : List Row → List Row}
  {files : Part → List Row} {written : List Row} {parts : List Part} {lo hi : Key} {r : Row}

theorem Stored.flatMap_ordered (h : Stored key part files written) (hpart : Monotone part)
    (hparts : parts.Pairwise (· < ·)) : Ordered key (parts.flatMap files) := by
  refine List.pairwise_flatMap.mpr ⟨fun p _ => h.ordered p, ?_⟩
  apply hparts.imp
  intro p q hpq r hr s hs
  have hlt : part (key r) < part (key s) := by
    rw [(h.sound p r hr).1, (h.sound q s hs).1]
    exact hpq
  exact lt_of_not_ge fun hge => (hpart hge).not_gt hlt

theorem readRows_eq (hsort : Sorts key sort) (hpart : Monotone part)
    (h : Stored key part files written) (hparts : parts.Pairwise (· < ·)) :
    readRows key sort files parts lo hi =
      (parts.flatMap files).filter fun r => lo ≤ key r ∧ key r ≤ hi :=
  sort_eq_of_perm hsort ((h.flatMap_ordered hpart hparts).filter _) (List.Perm.refl _)

theorem readRows_ordered (hsort : Sorts key sort) (hpart : Monotone part)
    (h : Stored key part files written) (hparts : parts.Pairwise (· < ·)) :
    Ordered key (readRows key sort files parts lo hi) := by
  rw [readRows_eq hsort hpart h hparts]
  exact (h.flatMap_ordered hpart hparts).filter _

theorem mem_readRows (hsort : Sorts key sort) (hpart : Monotone part)
    (h : Stored key part files written)
    (hcover : ∀ p, part lo ≤ p → p ≤ part hi → p ∈ parts) :
    r ∈ readRows key sort files parts lo hi ↔
      (lo ≤ key r ∧ key r ≤ hi) ∧ r ∈ files (part (key r)) := by
  unfold readRows
  rw [(hsort.perm _).mem_iff, List.mem_filter, decide_eq_true_eq, List.mem_flatMap, and_comm]
  constructor
  · rintro ⟨hrange, p, -, hr⟩
    rw [(h.sound p r hr).1]
    exact ⟨hrange, hr⟩
  · rintro ⟨hrange, hr⟩
    exact ⟨hrange, _, hcover _ (hpart hrange.1) (hpart hrange.2), hr⟩

end Reads

/-! ## The last write -/

section LastWrite

variable {key : Row → Key} {written : List Row} {r : Row} {k : Key}

theorem mem_of_lastWrite (h : lastWrite key written k = some r) : r ∈ written :=
  List.mem_reverse.mp (List.mem_of_find?_eq_some h)

theorem lastWrite_eq_some_iff (hfree : NoConflict key written) :
    lastWrite key written (key r) = some r ↔ r ∈ written := by
  constructor
  · exact mem_of_lastWrite
  · intro hr
    have hsome : (lastWrite key written (key r)).isSome := by
      unfold lastWrite
      rw [List.find?_isSome]
      exact ⟨r, List.mem_reverse.mpr hr, by simp⟩
    obtain ⟨s, hs⟩ := Option.isSome_iff_exists.mp hsome
    have hkey : key s = key r := by
      have := List.find?_some hs
      simpa using this
    rw [hs, hfree s (mem_of_lastWrite hs) r hr hkey]

end LastWrite

/-! ## Sorts -/

section Orders

variable (key : Row → Key)

theorem sorts_mergeSort :
    Sorts key fun rows => rows.mergeSort fun r s => decide (key r ≤ key s) where
  perm rows := List.mergeSort_perm _ _
  sorted rows := by
    apply List.Pairwise.imp of_decide_eq_true
    apply List.pairwise_mergeSort
    · intro a b c hab hbc
      simp only [decide_eq_true_eq] at hab hbc ⊢
      exact hab.trans hbc
    · intro a b
      simpa using le_total (key a) (key b)

theorem exists_sort_with_last (x : Row) : ∃ sort, Sorts key sort ∧
    ∀ rows, (sort rows).Pairwise fun s t => key s = key t → s = x → t = x := by
  classical
  -- By the key first, and then the row itself after all others.
  let finer : Row → Lex (Key × Bool) := fun r => toLex (key r, decide (r = x))
  have hsort := sorts_mergeSort finer
  refine ⟨_, ⟨hsort.perm, fun rows => ?_⟩, fun rows => ?_⟩
  · exact (hsort.sorted rows).imp fun hle => Prod.Lex.monotone_fst _ _ hle
  · apply (hsort.sorted rows).imp
    intro s t hle hkey hs
    obtain hlt | ⟨-, hflag⟩ := Prod.Lex.toLex_le_toLex.mp hle
    · exact absurd hkey hlt.ne
    · exact of_decide_eq_true (Bool.le_iff_imp.mp hflag (decide_eq_true hs))

end Orders

theorem NoConflict.exists_ordered {key : Row → Key} {written : List Row}
    (hfree : NoConflict key written) :
    ∃ all, Ordered key all ∧ ∀ r, r ∈ all ↔ r ∈ written := by
  have h : Stored key (fun _ => ()) _ [written].flatten :=
    stored_writeBatches (sorts_mergeSort key) [written]
  rw [List.flatten_singleton] at h
  exact ⟨_, h.ordered (), fun r => h.mem_iff hfree⟩

end QBackend.SortedPartitions
