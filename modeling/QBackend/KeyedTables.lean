import Mathlib.Algebra.BigOperators.Group.List.Basic
import Mathlib.Data.List.Nodup

/-!
# Tables of rows with a key

A table is a list of rows, a key a projection of the row. `lookup` reads the first row with
a key, `modify` rewrites every row with a key. Where the keys of a table are pairwise
distinct these are the primary-key read and update of a database.
-/

namespace QBackend.KeyedTables

variable {Row Key : Type*} [DecidableEq Key] (key : Row → Key)

def lookup (table : List Row) (k : Key) : Option Row := table.find? (fun r => key r = k)

def modify (table : List Row) (k : Key) (f : Row → Row) : List Row :=
  table.map (fun r => if key r = k then f r else r)

variable {key} {table : List Row} {k : Key} {r s : Row} {f : Row → Row}

theorem mem_of_lookup (h : lookup key table k = some r) : r ∈ table :=
  List.mem_of_find?_eq_some h

theorem key_of_lookup (h : lookup key table k = some r) : key r = k := by
  simpa using List.find?_some h

theorem lookup_eq_none : lookup key table k = none ↔ ∀ r ∈ table, key r ≠ k := by
  simp [lookup, List.find?_eq_none]

theorem lookup_of_mem (hnd : (table.map key).Nodup) (h : r ∈ table) :
    lookup key table (key r) = some r := by
  induction table with
  | nil => simp at h
  | cons a t ih =>
    simp only [List.map_cons, List.nodup_cons] at hnd
    rcases List.mem_cons.mp h with rfl | h
    · simp [lookup]
    · have hne : key a ≠ key r := fun e => hnd.1 (e ▸ List.mem_map_of_mem h)
      simpa [lookup, hne] using ih hnd.2 h

omit [DecidableEq Key] in
theorem eq_of_mem_of_key (hnd : (table.map key).Nodup) (hr : r ∈ table) (hs : s ∈ table)
    (h : key r = key s) : r = s :=
  List.inj_on_of_nodup_map hnd hr hs h

@[simp] theorem length_modify : (modify key table k f).length = table.length := by
  simp [modify]

theorem map_modify {Value : Type*} {g : Row → Value} (hg : ∀ r, g (f r) = g r) :
    (modify key table k f).map g = table.map g := by
  simp only [modify, List.map_map]
  apply List.map_congr_left
  intro r _
  by_cases h : key r = k <;> simp [h, hg]

theorem mem_modify : s ∈ modify key table k f ↔
    (∃ r ∈ table, key r = k ∧ s = f r) ∨ (s ∈ table ∧ key s ≠ k) := by
  simp only [modify, List.mem_map]
  constructor
  · rintro ⟨r, hr, rfl⟩
    by_cases h : key r = k
    · exact .inl ⟨r, hr, h, by simp [h]⟩
    · exact .inr (by simp [h, hr])
  · rintro (⟨r, hr, h, rfl⟩ | ⟨hs, h⟩)
    · exact ⟨r, hr, by simp [h]⟩
    · exact ⟨s, hs, by simp [h]⟩

theorem mem_modify_of_lookup (hnd : (table.map key).Nodup) (hr : lookup key table k = some r) :
    s ∈ modify key table k f ↔ s = f r ∨ (s ∈ table ∧ key s ≠ k) := by
  have hk := key_of_lookup hr
  rw [mem_modify]
  constructor
  · rintro (⟨t, ht, htk, rfl⟩ | h)
    · rw [eq_of_mem_of_key hnd ht (mem_of_lookup hr) (htk.trans hk.symm)]
      exact .inl rfl
    · exact .inr h
  · rintro (rfl | h)
    · exact .inl ⟨r, mem_of_lookup hr, hk, rfl⟩
    · exact .inr h

theorem lookup_modify_self (hf : ∀ r, key (f r) = key r) :
    lookup key (modify key table k f) k = (lookup key table k).map f := by
  induction table with
  | nil => rfl
  | cons a t ih =>
    by_cases h : key a = k
    · simp [lookup, modify, h, hf]
    · simpa [lookup, modify, h] using ih

theorem lookup_modify_of_ne {j : Key} (hf : ∀ r, key (f r) = key r) (hj : j ≠ k) :
    lookup key (modify key table k f) j = lookup key table j := by
  induction table with
  | nil => rfl
  | cons a t ih =>
    by_cases h : key a = k
    · have ha : key a ≠ j := fun e => hj (e.symm.trans h)
      have hfa : key (f a) ≠ j := fun e => ha ((hf a).symm.trans e)
      simpa [lookup, modify, h, hfa, ha, hj.symm] using ih
    · by_cases hj' : key a = j <;> simp_all [lookup, modify]

theorem map_lookup_modify {Value : Type*} {g : Row → Value} (hf : ∀ r, key (f r) = key r)
    (hg : ∀ r, g (f r) = g r) (j : Key) :
    (lookup key (modify key table k f) j).map g = (lookup key table j).map g := by
  by_cases hj : j = k
  · subst hj
    rw [lookup_modify_self hf, Option.map_map]
    cases lookup key table j <;> simp [hg]
  · rw [lookup_modify_of_ne hf hj]

theorem modify_modify {g : Row → Row} (hf : ∀ r, key (f r) = key r) :
    modify key (modify key table k f) k g = modify key table k (fun r => g (f r)) := by
  simp only [modify, List.map_map]
  apply List.map_congr_left
  intro r _
  by_cases h : key r = k <;> simp [h, hf]

theorem modify_of_lookup_none (h : lookup key table k = none) : modify key table k f = table := by
  rw [lookup_eq_none] at h
  simp only [modify]
  conv_rhs => rw [← List.map_id table]
  apply List.map_congr_left
  intro r hr
  simp [h r hr]

theorem sum_map_eq_add_filter {M : Type*} [AddCommMonoid M] (g : Row → M)
    (hnd : (table.map key).Nodup) (h : r ∈ table) :
    (table.map g).sum = g r + ((table.filter (fun s => key s ≠ key r)).map g).sum := by
  induction table with
  | nil => simp at h
  | cons a t ih =>
    simp only [List.map_cons, List.nodup_cons] at hnd
    rcases List.mem_cons.mp h with rfl | h
    · have hrest : t.filter (fun s => key s ≠ key r) = t := by
        refine List.filter_eq_self.mpr fun s hs => decide_eq_true fun e => ?_
        exact hnd.1 (e ▸ List.mem_map_of_mem hs)
      rw [List.map_cons, List.sum_cons, List.filter_cons_of_neg (by simp), hrest]
    · have hne : key a ≠ key r := fun e => hnd.1 (e ▸ List.mem_map_of_mem h)
      rw [List.map_cons, List.sum_cons, List.filter_cons_of_pos (by simpa using hne), List.map_cons,
        List.sum_cons, ih hnd.2 h, add_left_comm]

theorem lookup_append_new (h : lookup key table k = none) (hk : key r = k) :
    lookup key (table ++ [r]) k = some r := by
  simp only [lookup] at h ⊢
  simp [h, hk]

end QBackend.KeyedTables
