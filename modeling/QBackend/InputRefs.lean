import QBackend.GenomeSchema
import Mathlib.Data.List.TakeWhile

/-!
# References to ports

How `parse_input_ref` reads an id alone and an id with a port.
-/

namespace QBackend.GenomeDsl

theorem parseInputRef_of_plain {raw : String} (h : ∀ c ∈ raw.toList, c ≠ ':') :
    parseInputRef raw = (raw, "out") := by
  have hspan : raw.toList.span (· ≠ ':') = (raw.toList, []) := by
    rw [List.span_eq_takeWhile_dropWhile, List.takeWhile_eq_self_iff.mpr (by simpa using h),
      List.dropWhile_eq_nil_iff.mpr (by simpa using h)]
  rw [parseInputRef, hspan]

theorem parseInputRef_of_port {id : String} (port : String) (h : ∀ c ∈ id.toList, c ≠ ':') :
    parseInputRef (id ++ ":" ++ port) = (id, port) := by
  have hlist : (id ++ ":" ++ port).toList = id.toList ++ ':' :: port.toList := by
    simp [String.toList_append]
  have hall : ∀ c ∈ id.toList, decide (c ≠ ':') = true := fun c hc => decide_eq_true (h c hc)
  have hspan : (id ++ ":" ++ port).toList.span (· ≠ ':') = (id.toList, ':' :: port.toList) := by
    rw [hlist, List.span_eq_takeWhile_dropWhile, List.takeWhile_append_of_pos hall,
      List.dropWhile_append_of_pos hall]
    simp
  rw [parseInputRef, hspan]
  simp only [String.ofList_toList]

end QBackend.GenomeDsl
