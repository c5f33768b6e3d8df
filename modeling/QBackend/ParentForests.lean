import Mathlib.Logic.Function.Basic
import Mathlib.Logic.Relation
import Mathlib.Order.RelClasses

/-!
# Forests of parent pointers

A map from nodes to parents links the nodes that the pointers lead through; a root is its own parent,
and no two roots are linked. Pointing a node at its grandparent changes no link, and pointing a root
at a node adds the link between the two.
-/

namespace QBackend.ParentForests

open Relation Function

variable {κ : Type*} {parent : κ → κ}

/-! ## Links -/

/-- The nodes are linked by pointers, in whatever direction. -/
def Linked (parent : κ → κ) : κ → κ → Prop := EqvGen fun a b => parent a = b

theorem eqvGen_iff {r s : κ → κ → Prop} (hr : ∀ a b, r a b → EqvGen s a b)
    (hs : ∀ a b, s a b → EqvGen r a b) (a b : κ) : EqvGen r a b ↔ EqvGen s a b :=
  ⟨EqvGen.eqvGen_le hr a b, EqvGen.eqvGen_le hs a b⟩

instance : IsEquiv κ (Linked parent) := (EqvGen.is_equivalence _).isEquiv

theorem linked_parent (parent : κ → κ) (a : κ) : Linked parent a (parent a) := .rel _ _ rfl

theorem Linked.symm {a b : κ} (h : Linked parent a b) : Linked parent b a := EqvGen.symm _ _ h

theorem Linked.trans {a b c : κ} (h : Linked parent a b) (h' : Linked parent b c) :
    Linked parent a c := EqvGen.trans _ _ _ h h'

theorem linked_id {a b : κ} : Linked (id : κ → κ) a b ↔ a = b := by
  refine ⟨fun h => ?_, fun h => h ▸ .refl a⟩
  induction h with
  | rel _ _ h => exact h
  | refl _ => rfl
  | symm _ _ _ ih => exact ih.symm
  | trans _ _ _ _ _ ih ih' => exact ih.trans ih'

/-- The pointers lead linked nodes to a common node. -/
theorem Linked.join {a b : κ} (h : Linked parent a b) :
    Join (ReflTransGen fun a b => parent a = b) a b := by
  have hjoin : Equivalence (Join (ReflTransGen fun a b => parent a = b)) := by
    refine equivalence_join_reflTransGen ?_
    rintro a b c rfl rfl
    exact ⟨parent a, .refl, .refl⟩
  have := hjoin.isEquiv
  exact EqvGen.eqvGen_le (fun a b hab => ⟨b, .single hab, .refl⟩) a b h

theorem eq_of_reflTransGen_root {root a : κ} (hroot : parent root = root)
    (h : ReflTransGen (fun a b => parent a = b) root a) : a = root := by
  induction h with
  | refl => rfl
  | tail _ hedge ih =>
    subst ih
    exact hedge.symm.trans hroot

theorem Linked.eq_of_roots {r s : κ} (h : Linked parent r s) (hr : parent r = r)
    (hs : parent s = s) : r = s := by
  obtain ⟨c, hrc, hsc⟩ := h.join
  exact (eq_of_reflTransGen_root hr hrc).symm.trans (eq_of_reflTransGen_root hs hsc)

/-! ## Changes -/

variable [DecidableEq κ]

theorem linked_halve (node a b : κ) :
    Linked (update parent node (parent (parent node))) a b ↔ Linked parent a b := by
  by_cases hroot : parent node = node
  · rw [hroot, hroot, update_eq_self_iff.mpr hroot.symm]
  refine eqvGen_iff ?_ ?_ a b
  · rintro a b rfl
    by_cases ha : a = node
    · subst ha
      rw [update_self]
      exact (linked_parent parent a).trans (linked_parent parent (parent a))
    · rw [update_of_ne ha]
      exact linked_parent parent a
  · rintro a b rfl
    by_cases ha : a = node
    · subst ha
      -- the node and its parent both point at the grandparent
      have hnode := linked_parent (update parent a (parent (parent a))) a
      have hparent := linked_parent (update parent a (parent (parent a))) (parent a)
      rw [update_self] at hnode
      rw [update_of_ne hroot] at hparent
      exact hnode.trans hparent.symm
    · have hother := linked_parent (update parent node (parent (parent node))) a
      rw [update_of_ne ha] at hother
      exact hother

theorem linked_update_root {root target : κ} (hroot : parent root = root) (a b : κ) :
    Linked (update parent root target) a b ↔
      EqvGen (fun a b => Linked parent a b ∨ a = root ∧ b = target) a b := by
  refine eqvGen_iff ?_ ?_ a b
  · rintro a b rfl
    by_cases ha : a = root
    · exact .rel _ _ (.inr ⟨ha, by rw [ha, update_self]⟩)
    · rw [update_of_ne ha]
      exact .rel _ _ (.inl (linked_parent parent a))
  · rintro a b (h | ⟨rfl, rfl⟩)
    · refine EqvGen.eqvGen_le ?_ a b h
      rintro a b rfl
      by_cases ha : a = root
      · rw [ha, hroot]
        exact .refl root
      · have hother := linked_parent (update parent root target) a
        rw [update_of_ne ha] at hother
        exact hother
    · have hedge := linked_parent (update parent a b) a
      rw [update_self] at hedge
      exact hedge

end QBackend.ParentForests
