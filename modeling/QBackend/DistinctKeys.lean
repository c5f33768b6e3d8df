import Mathlib.Data.List.Perm.Basic
import Mathlib.Data.List.Nodup
import Mathlib.Tactic.Common

/-!
# Lists of entries with distinct keys

What `List.lookup` finds in a list of pairs, when no key is there twice: it does not depend on the
order of the entries, and the keys in order with what is found under them are the list.
-/

namespace QBackend.DistinctKeys

variable {Key Val Val' : Type*} [DecidableEq Key] {entries entries' : List (Key × Val)} {key : Key}
  {value : Val}

theorem mem_of_lookup (h : entries.lookup key = some value) : (key, value) ∈ entries := by
  obtain ⟨before, after, rfl, -⟩ := List.lookup_eq_some_iff.mp h
  exact List.mem_append_right _ List.mem_cons_self

theorem lookup_of_mem (hnd : (entries.map Prod.fst).Nodup) (h : (key, value) ∈ entries) :
    entries.lookup key = some value := by
  obtain ⟨before, after, rfl⟩ := List.append_of_mem h
  refine List.lookup_eq_some_iff.mpr ⟨before, after, rfl, fun entry hentry => ?_⟩
  rw [List.map_append, List.map_cons, List.nodup_middle] at hnd
  refine bne_iff_ne.mpr fun heq => (List.nodup_cons.mp hnd).1 ?_
  rw [heq]
  exact List.mem_append_left _ (List.mem_map.mpr ⟨entry, hentry, rfl⟩)

theorem isSome_lookup : (entries.lookup key).isSome ↔ key ∈ entries.map Prod.fst := by
  induction entries with
  | nil => simp
  | cons entry entries ih =>
    by_cases heq : key = entry.1
    · subst heq
      simp
    · have hb : (key == entry.1) = false := beq_false_of_ne heq
      rw [List.lookup_cons, hb, ih, List.map_cons, List.mem_cons, or_iff_right heq]

theorem lookup_perm (hnd : (entries.map Prod.fst).Nodup) (h : entries.Perm entries') :
    entries.lookup key = entries'.lookup key := by
  have hnd' : (entries'.map Prod.fst).Nodup := (h.map Prod.fst).nodup_iff.mp hnd
  refine Option.ext fun value => ?_
  exact ⟨fun hv => lookup_of_mem hnd' (h.mem_iff.mp (mem_of_lookup hv)),
    fun hv => lookup_of_mem hnd (h.mem_iff.mpr (mem_of_lookup hv))⟩

theorem lookup_map_value (f : Val → Val') :
    (entries.map fun entry => (entry.1, f entry.2)).lookup key = (entries.lookup key).map f := by
  induction entries with
  | nil => rfl
  | cons entry entries ih =>
    rw [List.map_cons, List.lookup_cons, List.lookup_cons]
    cases key == entry.1 with
    | true => rfl
    | false => exact ih

theorem eq_of_lookup (hnd : (entries.map Prod.fst).Nodup)
    (hkeys : entries'.map Prod.fst = entries.map Prod.fst)
    (h : ∀ key, entries'.lookup key = entries.lookup key) : entries' = entries := by
  have hnd' : (entries'.map Prod.fst).Nodup := hkeys ▸ hnd
  have hlength : entries'.length = entries.length := by
    simpa using congrArg List.length hkeys
  refine List.ext_getElem hlength fun i hi hi' => ?_
  have hkey : entries'[i].1 = entries[i].1 := by
    have hget := List.getElem_of_eq hkeys (i := i) (by rw [List.length_map]; exact hi)
    rwa [List.getElem_map, List.getElem_map] at hget
  have hfound : entries'.lookup entries'[i].1 = some entries'[i].2 :=
    lookup_of_mem hnd' (List.getElem_mem hi)
  have hother : entries.lookup entries[i].1 = some entries[i].2 :=
    lookup_of_mem hnd (List.getElem_mem hi')
  rw [h, hkey, hother] at hfound
  exact Prod.ext hkey (Option.some.inj hfound).symm

end QBackend.DistinctKeys
