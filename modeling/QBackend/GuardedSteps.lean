import QBackend.FallibleSteps

/-!
# Computations whose exceptions are caught

A computation that gives a value with a property, or raises an exception of a kind that its caller
catches: the rules of sequence and of loops. A step of a loop is only asked for the states that the
loop can have before it.
-/

namespace QBackend.FallibleSteps

universe u

variable {ε : Type*} {α β : Type u} {Caught : ε → Prop} {P : α → Prop} {Q : β → Prop}

/-- The computation gives a value with the property or raises what is caught. -/
def Guarded (Caught : ε → Prop) (x : Except ε α) (P : α → Prop) : Prop :=
  (∃ a, x = .ok a ∧ P a) ∨ ∃ e, x = .error e ∧ Caught e

theorem guarded_ok {a : α} (h : P a) : Guarded Caught (.ok a) P := .inl ⟨a, rfl, h⟩

theorem guarded_pure {a : α} (h : P a) : Guarded Caught (pure a) P := guarded_ok h

theorem guarded_error {e : ε} (h : Caught e) : Guarded Caught (.error e : Except ε α) P :=
  .inr ⟨e, rfl, h⟩

theorem Guarded.mono {x : Except ε α} {P' : α → Prop} (h : Guarded Caught x P)
    (hP : ∀ a, P a → P' a) : Guarded Caught x P' := by
  obtain ⟨a, hx, ha⟩ | ⟨e, hx, he⟩ := h
  · exact .inl ⟨a, hx, hP a ha⟩
  · exact .inr ⟨e, hx, he⟩

theorem Guarded.bind {x : Except ε α} {f : α → Except ε β} (h : Guarded Caught x P)
    (hf : ∀ a, x = .ok a → P a → Guarded Caught (f a) Q) : Guarded Caught (x >>= f) Q := by
  obtain ⟨a, hx, ha⟩ | ⟨e, hx, he⟩ := h
  · have hrest := hf a hx ha
    rw [hx]
    exact hrest
  · exact .inr ⟨e, bind_eq_error.mpr (.inl hx), he⟩

theorem guarded_congr {x : Except ε α} {P' : α → Prop} (h : ∀ a, x = .ok a → (P a ↔ P' a)) :
    Guarded Caught x P ↔ Guarded Caught x P' := by
  refine or_congr (exists_congr fun a => ?_) Iff.rfl
  exact and_congr_right fun hx => h a hx

theorem Guarded.of_ok {x : Except ε α} {a : α} (h : Guarded Caught x P) (hx : x = .ok a) : P a := by
  obtain ⟨b, hb, hP⟩ | ⟨e, he, -⟩ := h
  · obtain rfl := Except.ok.inj (hx.symm.trans hb)
    exact hP
  · rw [hx] at he
    cases he

theorem mapError_eq_ok {δ : Type*} {g : δ → ε} {x : Except δ α} {a : α} :
    x.mapError g = .ok a ↔ x = .ok a := by
  cases x with
  | ok b => exact ⟨fun h => congrArg _ (Except.ok.inj h), fun h => congrArg _ (Except.ok.inj h)⟩
  | error e => exact ⟨fun h => (by cases h), fun h => (by cases h)⟩

theorem guarded_of_mapError {δ : Type*} {g : δ → ε} {x : Except δ α} (hok : ∀ a, x = .ok a → P a)
    (herror : ∀ e, x = .error e → Caught (g e)) : Guarded Caught (x.mapError g) P := by
  cases x with
  | ok a => exact guarded_ok (hok a rfl)
  | error e => exact guarded_error (herror e rfl)

theorem guarded_foldlM {ι : Type*} {f : β → ι → Except ε β} {xs : List ι} {b : β}
    (Inv : β → Prop) (h0 : Inv b)
    (hstep : ∀ before x after s, xs = before ++ x :: after → before.foldlM f b = .ok s → Inv s →
      Guarded Caught (f s x) Inv) : Guarded Caught (xs.foldlM f b) Inv := by
  induction xs generalizing b with
  | nil => exact guarded_pure h0
  | cons x xs ih =>
    rw [List.foldlM_cons]
    refine (hstep [] x xs b rfl rfl h0).bind fun c hc hinv => ih hinv ?_
    intro before y after s hsplit hbefore hs
    refine hstep (x :: before) y after s (by rw [hsplit, List.cons_append]) ?_ hs
    rw [List.foldlM_cons]
    exact bind_of_ok hc hbefore

theorem guarded_mapM {ι : Type*} {f : ι → Except ε α} {R : ι → α → Prop} {xs : List ι}
    (h : ∀ x ∈ xs, Guarded Caught (f x) (R x)) :
    Guarded Caught (xs.mapM f) fun as => List.Forall₂ R xs as := by
  induction xs with
  | nil => exact guarded_pure .nil
  | cons x xs ih =>
    rw [List.mapM_cons]
    refine (h x List.mem_cons_self).bind fun a _ ha => ?_
    refine (ih fun y hy => h y (List.mem_cons_of_mem x hy)).bind fun as _ has => ?_
    exact guarded_pure (.cons ha has)

end QBackend.FallibleSteps
