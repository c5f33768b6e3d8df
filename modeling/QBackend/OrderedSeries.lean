import Mathlib.Data.List.Pairwise
import Mathlib.Data.List.Sort
import Mathlib.Order.BoundedOrder.Basic

/-!
# Series of rows in strict order of a key

A series holds at most one row for each key, in the order of the keys. Merging rows into it replaces
the row of a key that is there. Series that hold the same rows are equal.
-/

namespace QBackend.OrderedSeries

variable {Row Key : Type*} [LinearOrder Key] (key : Row → Key)

def Ordered (rows : List Row) : Prop := rows.Pairwise (fun r s => key r < key s)

/-- The row in its place; a row with the same key goes. -/
def upsert : List Row → Row → List Row
  | [], x => [x]
  | y :: ys, x =>
    if key x < key y then x :: y :: ys
    else if key x = key y then x :: ys
    else y :: upsert ys x

/-- Rows merged one after another, so that the last of a key stays. -/
def merge (rows incoming : List Row) : List Row := incoming.foldl (upsert key) rows

variable {key} {rows incoming : List Row} {x z : Row}

theorem mem_upsert_self : x ∈ upsert key rows x := by
  induction rows with
  | nil => simp [upsert]
  | cons y ys ih =>
    unfold upsert
    split
    · simp
    · split
      · simp
      · exact List.mem_cons_of_mem _ ih

theorem mem_of_mem_upsert (h : z ∈ upsert key rows x) : z = x ∨ z ∈ rows := by
  induction rows with
  | nil => simpa [upsert] using h
  | cons y ys ih =>
    unfold upsert at h
    split at h
    · simpa using h
    · split at h
      · rcases List.mem_cons.mp h with h | h
        · exact .inl h
        · exact .inr (List.mem_cons_of_mem _ h)
      · rcases List.mem_cons.mp h with h | h
        · exact .inr (by simp [h])
        · exact (ih h).imp id (List.mem_cons_of_mem _)

theorem mem_upsert_of_ne (h : z ∈ rows) (hne : key z ≠ key x) : z ∈ upsert key rows x := by
  induction rows with
  | nil => cases h
  | cons y ys ih =>
    unfold upsert
    rcases List.mem_cons.mp h with rfl | h
    · split
      · simp
      · rw [if_neg (fun heq => hne heq.symm)]
        simp
    · split
      · simp [h]
      · split
        · simp [h]
        · exact List.mem_cons_of_mem _ (ih h)

theorem Ordered.upsert (h : Ordered key rows) (x : Row) : Ordered key (upsert key rows x) := by
  induction rows with
  | nil => exact List.pairwise_singleton _ _
  | cons y ys ih =>
    obtain ⟨hy, hys⟩ := List.pairwise_cons.mp h
    unfold OrderedSeries.upsert
    split
    next hlt =>
      refine List.pairwise_cons.mpr ⟨fun z hz => ?_, h⟩
      rcases List.mem_cons.mp hz with rfl | hz
      · exact hlt
      · exact hlt.trans (hy z hz)
    next hge =>
      split
      next heq => exact List.pairwise_cons.mpr ⟨fun z hz => heq ▸ hy z hz, hys⟩
      next hne =>
        have hlt : key y < key x := lt_of_le_of_ne (not_lt.mp hge) (Ne.symm hne)
        refine List.pairwise_cons.mpr ⟨fun z hz => ?_, ih hys⟩
        rcases mem_of_mem_upsert hz with rfl | hz
        · exact hlt
        · exact hy z hz

theorem Ordered.merge (h : Ordered key rows) : Ordered key (merge key rows incoming) := by
  induction incoming generalizing rows with
  | nil => exact h
  | cons x xs ih => exact ih (h.upsert x)

theorem Ordered.eq_of_key (h : Ordered key rows) (hx : x ∈ rows) (hz : z ∈ rows)
    (hkey : key x = key z) : x = z := by
  induction rows with
  | nil => cases hx
  | cons y ys ih =>
    obtain ⟨hy, hys⟩ := List.pairwise_cons.mp h
    rcases List.mem_cons.mp hx with rfl | hx' <;> rcases List.mem_cons.mp hz with rfl | hz'
    · rfl
    · exact absurd hkey (hy z hz').ne
    · exact absurd hkey.symm (hy x hx').ne
    · exact ih hys hx' hz'

/-- Rows that all come from one series merge to the union. -/
theorem mem_merge {all : List Row} (hall : Ordered key all) (hrows : ∀ r ∈ rows, r ∈ all)
    (hincoming : ∀ r ∈ incoming, r ∈ all) :
    z ∈ merge key rows incoming ↔ z ∈ rows ∨ z ∈ incoming := by
  induction incoming generalizing rows with
  | nil => simp [merge]
  | cons x xs ih =>
    have hx : x ∈ all := hincoming x (by simp)
    have hupsert : ∀ r, r ∈ upsert key rows x ↔ r = x ∨ r ∈ rows := fun r => by
      refine ⟨mem_of_mem_upsert, fun h => ?_⟩
      rcases h with rfl | h
      · exact mem_upsert_self
      · by_cases hkey : key r = key x
        · rw [hall.eq_of_key (hrows r h) hx hkey]
          exact mem_upsert_self
        · exact mem_upsert_of_ne h hkey
    have hsub : ∀ r ∈ upsert key rows x, r ∈ all := fun r hr => by
      rcases (hupsert r).mp hr with rfl | hr
      · exact hx
      · exact hrows r hr
    show z ∈ merge key (upsert key rows x) xs ↔ _
    rw [ih hsub (fun r hr => hincoming r (List.mem_cons_of_mem _ hr)), hupsert, List.mem_cons]
    tauto

theorem Ordered.nodup (h : Ordered key rows) : rows.Nodup :=
  h.imp fun hlt heq => absurd (congrArg key heq) hlt.ne

theorem Ordered.eq_of_mem_iff {rows' : List Row} (h : Ordered key rows) (h' : Ordered key rows')
    (hmem : ∀ r, r ∈ rows ↔ r ∈ rows') : rows = rows' := by
  have hperm : rows.Perm rows' := (List.perm_ext_iff_of_nodup h.nodup h'.nodup).mpr hmem
  exact hperm.eq_of_pairwise (fun r s _ _ hrs hsr => absurd hrs hsr.asymm) h h'

theorem Ordered.filter (h : Ordered key rows) (p : Row → Bool) : Ordered key (rows.filter p) :=
  List.Pairwise.filter p h

theorem mergeSort_eq_of_perm (hordered : Ordered key rows) (hperm : incoming.Perm rows) :
    incoming.mergeSort (fun r s => decide (key r ≤ key s)) = rows := by
  have hsorted : (incoming.mergeSort fun r s => decide (key r ≤ key s)).Pairwise
      fun r s => key r ≤ key s := by
    apply List.Pairwise.imp of_decide_eq_true
    apply List.pairwise_mergeSort
    · intro a b c hab hbc
      simp only [decide_eq_true_eq] at hab hbc ⊢
      exact hab.trans hbc
    · intro a b
      simpa using le_total (key a) (key b)
  have hsame : (incoming.mergeSort fun r s => decide (key r ≤ key s)).Perm rows :=
    (List.mergeSort_perm _ _).trans hperm
  apply hsame.eq_of_pairwise
  · intro a b ha hb hab hba
    exact hordered.eq_of_key (hsame.subset ha) hb (le_antisymm hab hba)
  · exact hsorted
  · exact hordered.imp le_of_lt

theorem pairwise_rel_or {α : Type*} {R : α → α → Prop} {items : List α} (h : items.Pairwise R)
    {a b : α} (ha : a ∈ items) (hb : b ∈ items) (hne : a ≠ b) : R a b ∨ R b a := by
  have hsymm : Std.Symm fun x y => R x y ∨ R y x := ⟨fun x y hxy => hxy.symm⟩
  have hor : items.Pairwise fun x y => R x y ∨ R y x := h.imp Or.inl
  exact hor.forall ha hb hne

/-! ## The best first -/

theorem le_of_mem_dropWhile_lt (h : rows.Pairwise fun r s => key r ≤ key s) {k : Key}
    (hx : x ∈ rows.dropWhile fun r => key r < k) : k ≤ key x := by
  induction rows with
  | nil => cases hx
  | cons y ys ih =>
    obtain ⟨hy, hys⟩ := List.pairwise_cons.mp h
    by_cases hlt : key y < k
    · rw [List.dropWhile_cons, if_pos (by simpa using hlt)] at hx
      exact ih hys hx
    · rw [List.dropWhile_cons, if_neg (by simpa using hlt)] at hx
      obtain rfl | hx := List.mem_cons.mp hx
      · exact not_lt.mp hlt
      · exact (not_lt.mp hlt).trans (hy x hx)

section BestFirst

variable {α β : Type*} [LinearOrder β] {key : α → β}

/-- The head of a stable sort with the highest keys first is the first item with the highest
key. -/
theorem head_insertionSort {items : List α} {a : α} {rest : List α}
    (h : items.insertionSort (fun x y => key y ≤ key x) = a :: rest) :
    ∃ before after, items = before ++ a :: after ∧ (∀ b ∈ before, key b < key a) ∧
      ∀ b ∈ after, key b ≤ key a := by
  induction items generalizing a rest with
  | nil => cases h
  | cons x items ih =>
    rw [List.insertionSort_cons] at h
    cases hsorted : items.insertionSort (fun x y => key y ≤ key x) with
    | nil =>
      rw [hsorted] at h
      have hnil : items = [] := by
        have := congrArg List.length hsorted
        rw [List.length_insertionSort] at this
        exact List.eq_nil_of_length_eq_zero this
      cases h
      exact ⟨[], [], by rw [hnil]; rfl, by simp, by simp⟩
    | cons m rest' =>
      obtain ⟨before, after, hitems, hbefore, hafter⟩ := ih hsorted
      rw [hsorted, List.orderedInsert_cons] at h
      split at h
      · next hle =>
        cases h
        refine ⟨[], items, rfl, by simp, fun b hb => ?_⟩
        rw [hitems] at hb
        obtain hb | hb := List.mem_append.mp hb
        · exact (hbefore b hb).le.trans hle
        · obtain rfl | hb := List.mem_cons.mp hb
          · exact hle
          · exact (hafter b hb).trans hle
      · next hlt =>
        cases h
        refine ⟨x :: before, after, by rw [hitems]; rfl, ?_, hafter⟩
        intro b hb
        obtain rfl | hb := List.mem_cons.mp hb
        · exact not_le.mp hlt
        · exact hbefore b hb

/-- Where one of the first items satisfies the predicate, so does one with the highest key of all
that do. -/
theorem exists_best_in_take {P : α → Prop} {items : List α}
    (hsorted : items.Pairwise fun x y => key y ≤ key x) {n : ℕ} {e : α}
    (he : e ∈ items.take n) (hP : P e) :
    ∃ m ∈ items.take n, P m ∧ ∀ b ∈ items, P b → key b ≤ key m := by
  induction items generalizing n with
  | nil => simp at he
  | cons x items ih =>
    cases n with
    | zero => simp at he
    | succ n =>
      rw [List.pairwise_cons] at hsorted
      by_cases hx : P x
      · refine ⟨x, by simp, hx, fun b hb _ => ?_⟩
        obtain rfl | hb := List.mem_cons.mp hb
        · exact le_rfl
        · exact hsorted.1 b hb
      · rw [List.take_succ_cons, List.mem_cons] at he
        have he' : e ∈ items.take n := by
          obtain rfl | he := he
          · exact (hx hP).elim
          · exact he
        obtain ⟨m, hm, hPm, hbest⟩ := ih hsorted.2 he'
        refine ⟨m, by simp [hm], hPm, fun b hb hPb => ?_⟩
        obtain rfl | hb := List.mem_cons.mp hb
        · exact (hx hPb).elim
        · exact hbest b hb hPb

section Sorted

variable (key)

theorem pairwise_bestFirst (items : List α) :
    (items.insertionSort fun x y => key y ≤ key x).Pairwise fun x y => key y ≤ key x := by
  have htotal : Std.Total fun x y : α => key y ≤ key x := ⟨fun x y => le_total _ _⟩
  have htrans : IsTrans α fun x y => key y ≤ key x := ⟨fun x y z hxy hyz => hyz.trans hxy⟩
  exact List.pairwise_insertionSort _ _

theorem map_key_bestFirst {items items' : List α} (h : items'.Perm items) :
    (items'.insertionSort fun x y => key y ≤ key x).map key =
      (items.insertionSort fun x y => key y ≤ key x).map key := by
  have hperm : (items'.insertionSort fun x y => key y ≤ key x).Perm
      (items.insertionSort fun x y => key y ≤ key x) :=
    (List.perm_insertionSort _ _).trans (h.trans (List.perm_insertionSort _ _).symm)
  have hsorted : ∀ items : List α,
      ((items.insertionSort fun x y => key y ≤ key x).map key).Pairwise fun a b => b ≤ a :=
    fun items => List.pairwise_map.mpr (pairwise_bestFirst key items)
  refine List.Perm.eq_of_pairwise (fun a b _ _ hab hba => ?_) (hsorted items')
    (hsorted items) (hperm.map key)
  exact le_antisymm hba hab

end Sorted

theorem exists_split_bot [OrderBot β] {items : List α}
    (hsorted : items.Pairwise fun x y => key y ≤ key x) :
    ∃ some none, items = some ++ none ∧ (∀ a ∈ some, key a ≠ ⊥) ∧ ∀ a ∈ none, key a = ⊥ := by
  induction items with
  | nil => exact ⟨[], [], rfl, by simp, by simp⟩
  | cons x items ih =>
    obtain ⟨hx, hitems⟩ := List.pairwise_cons.mp hsorted
    by_cases hbot : key x = ⊥
    · refine ⟨[], x :: items, rfl, by simp, fun a ha => ?_⟩
      obtain rfl | ha := List.mem_cons.mp ha
      · exact hbot
      · exact le_bot_iff.mp ((hx a ha).trans hbot.le)
    · obtain ⟨some, none, rfl, hsome, hnone⟩ := ih hitems
      refine ⟨x :: some, none, rfl, fun a ha => ?_, hnone⟩
      obtain rfl | ha := List.mem_cons.mp ha
      · exact hbot
      · exact hsome a ha

end BestFirst

end QBackend.OrderedSeries
