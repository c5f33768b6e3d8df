import Mathlib.Data.List.Basic

/-!
# Runs of a deterministic event machine and the rules that carry invariants along them

A machine is a step function on states that consumes one event. A run consumes a list of
events. `Admissible` restricts a run to events that a condition accepts in the state they
meet; the two rules below turn a fact about one step into a fact about every state reached.
-/

namespace QBackend.RunInvariants

variable {State Event : Type*} (step : State → Event → State)

/-- The state after all events, in order. -/
def run (s : State) (events : List Event) : State := events.foldl step s

@[simp] theorem run_nil (s : State) : run step s [] = s := rfl

@[simp] theorem run_cons (s : State) (e : Event) (es : List Event) :
    run step s (e :: es) = run step (step s e) es := rfl

theorem run_append (s : State) (es fs : List Event) :
    run step s (es ++ fs) = run step (run step s es) fs := by
  simp [run]

/-- Every event of the run meets the condition in the state that it finds. -/
def Admissible (condition : State → Event → Prop) : State → List Event → Prop
  | _, [] => True
  | s, e :: es => condition s e ∧ Admissible condition (step s e) es

instance decidableAdmissible (condition : State → Event → Prop)
    [∀ s e, Decidable (condition s e)] (s : State) (es : List Event) :
    Decidable (Admissible step condition s es) :=
  match es with
  | [] => isTrue trivial
  | e :: es =>
    have := decidableAdmissible condition (step s e) es
    inferInstanceAs (Decidable (condition s e ∧ Admissible step condition (step s e) es))

variable {step} {condition : State → Event → Prop} (Inv : State → Prop)

theorem Admissible.of_forall {P : Event → Prop} {es : List Event} (h : ∀ e ∈ es, P e) (s : State) :
    Admissible step (fun _ e => P e) s es := by
  induction es generalizing s with
  | nil => trivial
  | cons e es ih => exact ⟨h e (by simp), ih (fun x hx => h x (by simp [hx])) _⟩

theorem Admissible.mono {condition' : State → Event → Prop} {s : State} {es : List Event}
    (h : Admissible step condition s es) (himp : ∀ s e, condition s e → condition' s e) :
    Admissible step condition' s es := by
  induction es generalizing s with
  | nil => trivial
  | cons e es ih => exact ⟨himp s e h.1, ih h.2⟩

theorem Admissible.and {condition' : State → Event → Prop} {s : State} {es : List Event}
    (h : Admissible step condition s es) (h' : Admissible step condition' s es) :
    Admissible step (fun s e => condition s e ∧ condition' s e) s es := by
  induction es generalizing s with
  | nil => trivial
  | cons e es ih => exact ⟨⟨h.1, h'.1⟩, ih h.2 h'.2⟩

/-- The condition at one event of an admissible run. -/
theorem Admissible.condition_at {s : State} {es fs : List Event} {e : Event}
    (h : Admissible step condition s (es ++ e :: fs)) : condition (run step s es) e := by
  induction es generalizing s with
  | nil => exact h.1
  | cons a es ih => exact ih h.2

theorem admissible_append {s : State} {es fs : List Event} :
    Admissible step condition s (es ++ fs) ↔
      Admissible step condition s es ∧ Admissible step condition (run step s es) fs := by
  induction es generalizing s with
  | nil => exact (and_iff_right trivial).symm
  | cons e es ih => exact (and_congr_right fun _ => ih).trans and_assoc.symm

theorem invariant_of_admissible {s : State} {es : List Event}
    (hrun : Admissible step condition s es) (h0 : Inv s)
    (hstep : ∀ s e, condition s e → Inv s → Inv (step s e)) : Inv (run step s es) := by
  induction es generalizing s with
  | nil => exact h0
  | cons e es ih => exact ih hrun.2 (hstep s e hrun.1 h0)

theorem invariant {s : State} (h0 : Inv s) (hstep : ∀ s e, Inv s → Inv (step s e))
    (es : List Event) : Inv (run step s es) := by
  induction es generalizing s with
  | nil => exact h0
  | cons e es ih => exact ih (hstep s e h0)

theorem related_of_admissible {State' : Type*} {step' : State' → Event → State'}
    (R : State → State' → Prop) {s : State} {s' : State'} {es : List Event}
    (hrun : Admissible step condition s es) (h0 : R s s')
    (hstep : ∀ s s' e, condition s e → R s s' → R (step s e) (step' s' e)) :
    R (run step s es) (run step' s' es) := by
  induction es generalizing s s' with
  | nil => exact h0
  | cons e es ih => exact ih hrun.2 (hstep s s' e hrun.1 h0)

/-- A property that a step keeps exactly under the condition holds along a run exactly when the run
is admissible. -/
theorem forall_take_iff {R : State → Prop}
    (hInv : ∀ s e, Inv s → Inv (step s e))
    (hstep : ∀ s e, Inv s → R s → (R (step s e) ↔ condition s e)) {s : State} (h0 : Inv s)
    (hR : R s) (es : List Event) :
    (∀ n, R (run step s (es.take n))) ↔ Admissible step condition s es := by
  induction es generalizing s with
  | nil => exact ⟨fun _ => trivial, fun _ n => by simpa using hR⟩
  | cons e es ih =>
    have hnext := hstep s e h0 hR
    constructor
    · intro h
      have hfirst : R (step s e) := h 1
      exact ⟨hnext.mp hfirst, (ih (hInv s e h0) hfirst).mp fun n => h (n + 1)⟩
    · rintro ⟨hcondition, hrest⟩ n
      have hfirst := hnext.mpr hcondition
      cases n with
      | zero => exact hR
      | succ n => exact (ih (hInv s e h0) hfirst).mpr hrest n

end QBackend.RunInvariants
