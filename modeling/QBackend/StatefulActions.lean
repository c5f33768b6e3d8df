import Mathlib.Data.List.Basic

/-!
# Actions on a mutable state that may fail

A failure keeps the state that the action has built so far, as an exception does with the fields
of a live object. `Triple P m Q E` says that from a state with `P` the action ends in `Q` when it
returns and in `E` when it fails.
-/

namespace StatefulActions

/-- The result of an action and the state it leaves. -/
def Action (σ ε α : Type) : Type := σ → Except ε α × σ

namespace Action

variable {σ ε α β : Type}

/-- The state survives a failure. -/
def bind (m : Action σ ε α) (f : α → Action σ ε β) : Action σ ε β := fun s =>
  match m s with
  | (.ok a, s') => f a s'
  | (.error e, s') => (.error e, s')

instance : Monad (Action σ ε) where
  pure a := fun s => (.ok a, s)
  bind := bind

def get : Action σ ε σ := fun s => (.ok s, s)

def modify (f : σ → σ) : Action σ ε Unit := fun s => (.ok (), f s)

def throw (e : ε) : Action σ ε α := fun s => (.error e, s)

/-- A note that is taken when the action fails; the failure goes on. -/
def onFailure (m : Action σ ε α) (f : ε → σ → σ) : Action σ ε α := fun s =>
  match m s with
  | (.ok a, s') => (.ok a, s')
  | (.error e, s') => (.error e, f e s')

/-- The loop of a list, left to right, up to the first failure. -/
def each (f : α → Action σ ε Unit) : List α → Action σ ε Unit
  | [] => pure ()
  | a :: as => f a >>= fun _ => each f as

theorem bind_assoc {γ : Type} (m : Action σ ε α) (f : α → Action σ ε β) (g : β → Action σ ε γ) :
    (m >>= f) >>= g = m >>= fun a => f a >>= g := by
  funext s
  simp only [Bind.bind, bind]
  cases m s with
  | mk r s' => cases r <;> rfl

end Action

variable {σ ε α β : Type}

def Triple (P : σ → Prop) (m : Action σ ε α) (Q : α → σ → Prop) (E : ε → σ → Prop) : Prop :=
  ∀ s, P s →
    match m s with
    | (.ok a, s') => Q a s'
    | (.error e, s') => E e s'

namespace Triple

variable {P P' : σ → Prop} {Q Q' : α → σ → Prop} {E E' : ε → σ → Prop} {m : Action σ ε α}

theorem conseq (h : Triple P m Q E) (hP : ∀ s, P' s → P s) (hQ : ∀ a s, Q a s → Q' a s)
    (hE : ∀ e s, E e s → E' e s) : Triple P' m Q' E' := by
  intro s hs
  have hm := h s (hP s hs)
  cases hres : m s with
  | mk r s' =>
    rw [hres] at hm
    cases r with
    | ok a => exact hQ a s' hm
    | error e => exact hE e s' hm

theorem trivial (P : σ → Prop) (m : Action σ ε α) : Triple P m (fun _ _ => True) (fun _ _ => True) := by
  intro s _
  cases m s with
  | mk r s' => cases r <;> exact True.intro

theorem pure {a : α} (h : ∀ s, P s → Q a s) : Triple P (Pure.pure a) Q E := h

theorem throw {e : ε} (h : ∀ s, P s → E e s) : Triple P (Action.throw e) Q E := h

theorem modify {f : σ → σ} {R : Unit → σ → Prop} (h : ∀ s, P s → R () (f s)) :
    Triple P (Action.modify f) R E := h

theorem bind {f : α → Action σ ε β} {R : β → σ → Prop} (hm : Triple P m Q E)
    (hf : ∀ a, Triple (Q a) (f a) R E) : Triple P (m >>= f) R E := by
  intro s hs
  have h₁ := hm s hs
  simp only [Bind.bind, Action.bind]
  cases hres : m s with
  | mk r s' =>
    rw [hres] at h₁
    cases r with
    | ok a => exact hf a s' h₁
    | error e => exact h₁

theorem onFailure {f : ε → σ → σ} (h : Triple P m Q (fun e s => E e (f e s))) :
    Triple P (m.onFailure f) Q E := by
  intro s hs
  have hm := h s hs
  simp only [Action.onFailure]
  cases hres : m s with
  | mk r s' =>
    rw [hres] at hm
    cases r with
    | ok a => exact hm
    | error e => exact hm

theorem get_bind {f : σ → Action σ ε β} {R : β → σ → Prop}
    (hf : ∀ s, P s → Triple (fun t => t = s ∧ P t) (f s) R E) : Triple P (Action.get >>= f) R E :=
  fun s hs => hf s hs s ⟨rfl, hs⟩

theorem each {f : β → Action σ ε Unit} {Inv : σ → Prop} {bs : List β}
    (hf : ∀ b ∈ bs, Triple Inv (f b) (fun _ => Inv) E) :
    Triple Inv (Action.each f bs) (fun _ => Inv) E := by
  induction bs with
  | nil => exact pure (fun _ hs => hs)
  | cons b bs ih =>
    refine bind (hf b (by simp)) (fun _ => ih ?_)
    exact fun b' hb' => hf b' (List.mem_cons_of_mem b hb')

end Triple

end StatefulActions
