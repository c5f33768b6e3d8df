import Mathlib.Data.List.Basic

/-!
# Computations that may raise

Peeling a computation in `Except` apart into the steps that succeeded, and the invariant rule
for a loop that stops at its first exception.
-/

namespace QBackend.FallibleSteps

universe u

variable {ε : Type*} {α β : Type u}

theorem bind_eq_ok {x : Except ε α} {f : α → Except ε β} {b : β} :
    (x >>= f) = .ok b ↔ ∃ a, x = .ok a ∧ f a = .ok b := by
  cases x with
  | error e => simp [bind, Except.bind]
  | ok a => simp [bind, Except.bind]

theorem ok_bind (a : α) (f : α → Except ε β) : (Except.ok a >>= f) = f a := rfl

theorem ok_map (a : α) (f : α → β) : (f <$> (Except.ok a : Except ε α)) = .ok (f a) := rfl

theorem bind_of_ok {x : Except ε α} {f : α → Except ε β} {a : α} {y : Except ε β} (h : x = .ok a)
    (hf : f a = y) : (x >>= f) = y := by
  subst h
  exact hf

theorem bind_eq_error {x : Except ε α} {f : α → Except ε β} {e : ε} :
    (x >>= f) = .error e ↔ x = .error e ∨ ∃ a, x = .ok a ∧ f a = .error e := by
  cases x with
  | error e' => simp [bind, Except.bind]
  | ok a => simp [bind, Except.bind]

theorem bind_congr_ok {x : Except ε α} {f g : α → Except ε β} (h : ∀ a, x = .ok a → f a = g a) :
    (x >>= f) = (x >>= g) := by
  cases x with
  | error e => rfl
  | ok a => exact h a rfl

theorem pure_eq_ok {a b : α} : (pure a : Except ε α) = .ok b ↔ a = b := by
  simp [pure, Except.pure]

theorem eq_ok_of_toOption {ε α : Type*} {x : Except ε α} {a : α} (h : x.toOption = some a) :
    x = .ok a := by
  cases x with
  | error e => cases h
  | ok b => exact congrArg Except.ok (Option.some.inj h)

theorem exists_ok_of_isSome {ε α : Type*} {x : Except ε α} (h : x.toOption.isSome = true) :
    ∃ a, x = .ok a := by
  cases x with
  | ok a => exact ⟨a, rfl⟩
  | error e => cases h

/-- A check that raises unless the condition holds. -/
def ensure (p : Prop) [Decidable p] (e : ε) : Except ε Unit := if p then .ok () else .error e

@[simp] theorem ensure_eq_ok {p : Prop} [Decidable p] {e : ε} {u : Unit} :
    ensure p e = .ok u ↔ p := by
  by_cases hp : p
  · simp [ensure, hp]
  · simp [ensure, hp]

theorem ensure_eq_error {p : Prop} [Decidable p] {e e' : ε} :
    ensure p e = .error e' ↔ ¬ p ∧ e = e' := by
  by_cases hp : p
  · simp [ensure, hp]
  · simp [ensure, hp]

theorem toBool_eq_true {ε : Type*} {x : Except ε Unit} : x.toBool = true ↔ x = .ok () := by
  cases x with
  | error e => simp [Except.toBool]
  | ok u => simp [Except.toBool]

theorem seq_eq_ok {x y : Except ε Unit} :
    (x >>= fun _ => y) = .ok () ↔ x = .ok () ∧ y = .ok () := by
  rw [bind_eq_ok]
  exact ⟨fun ⟨_, hx, hy⟩ => ⟨hx, hy⟩, fun ⟨hx, hy⟩ => ⟨(), hx, hy⟩⟩

theorem forM_eq_ok {ι : Type*} {f : ι → Except ε Unit} {xs : List ι} :
    xs.forM f = .ok () ↔ ∀ x ∈ xs, f x = .ok () := by
  induction xs with
  | nil => simp [pure, Except.pure]
  | cons x xs ih =>
    show (f x >>= fun _ => xs.forM f) = .ok () ↔ _
    rw [seq_eq_ok, ih]
    simp

theorem forM_eq_error {ι : Type*} {f : ι → Except ε Unit} {xs : List ι} {e : ε}
    (h : xs.forM f = .error e) : ∃ x ∈ xs, f x = .error e := by
  induction xs with
  | nil => cases h
  | cons x xs ih =>
    obtain hx | ⟨_, -, hxs⟩ := bind_eq_error.mp (show (f x >>= fun _ => xs.forM f) = .error e from h)
    · exact ⟨x, List.mem_cons_self, hx⟩
    · obtain ⟨y, hy, hfy⟩ := ih hxs
      exact ⟨y, List.mem_cons_of_mem x hy, hfy⟩

theorem forall₂_of_mapM {ι : Type*} {f : ι → Except ε α} {xs : List ι} {as : List α}
    (h : xs.mapM f = .ok as) : List.Forall₂ (fun x a => f x = .ok a) xs as := by
  induction xs generalizing as with
  | nil =>
    rw [List.mapM_nil, pure_eq_ok] at h
    subst h
    exact .nil
  | cons x xs ih =>
    rw [List.mapM_cons, bind_eq_ok] at h
    obtain ⟨a, ha, h⟩ := h
    rw [bind_eq_ok] at h
    obtain ⟨as', has, h⟩ := h
    rw [pure_eq_ok] at h
    subst h
    exact .cons ha (ih has)

theorem mapM_eq_ok_of_forall₂ {ι : Type*} {f : ι → Except ε α} {xs : List ι} {as : List α}
    (h : List.Forall₂ (fun x a => f x = .ok a) xs as) : xs.mapM f = .ok as := by
  induction h with
  | nil => rfl
  | cons ha _ ih =>
    rw [List.mapM_cons, ha, ih]
    rfl

theorem exists_mapM_ok {ι : Type*} {f : ι → Except ε α} {xs : List ι}
    (h : ∀ x ∈ xs, ∃ a, f x = .ok a) : ∃ as, xs.mapM f = .ok as := by
  induction xs with
  | nil => exact ⟨[], rfl⟩
  | cons x xs ih =>
    obtain ⟨a, ha⟩ := h x List.mem_cons_self
    obtain ⟨as, has⟩ := ih fun y hy => h y (List.mem_cons_of_mem x hy)
    refine ⟨a :: as, ?_⟩
    rw [List.mapM_cons, ha, has]
    rfl

theorem exists_ok_of_mapM {ι : Type*} {f : ι → Except ε α} {xs : List ι} {as : List α}
    (h : xs.mapM f = .ok as) {x : ι} (hx : x ∈ xs) : ∃ a, f x = .ok a := by
  induction forall₂_of_mapM h with
  | nil => cases hx
  | cons hxa hrest ih =>
    obtain rfl | hx := List.mem_cons.mp hx
    · exact ⟨_, hxa⟩
    · exact ih (mapM_eq_ok_of_forall₂ hrest) hx

theorem mem_of_mapM {ι : Type*} {f : ι → Except ε α} {xs : List ι} {as : List α}
    (h : xs.mapM f = .ok as) {a : α} : a ∈ as ↔ ∃ x ∈ xs, f x = .ok a := by
  induction forall₂_of_mapM h with
  | nil => simp
  | cons hxa hrest ih =>
    rw [List.mem_cons, ih (mapM_eq_ok_of_forall₂ hrest)]
    simp only [List.mem_cons, exists_eq_or_imp, hxa, Except.ok.injEq]
    rw [eq_comm]

/-- What holds of the value of a computation, if it has one. -/
def Returns (x : Except ε α) (P : α → Prop) : Prop := ∀ a, x = .ok a → P a

theorem returns_ok {a : α} {P : α → Prop} (h : P a) : Returns (.ok a : Except ε α) P :=
  fun _ hb => Except.ok.inj hb ▸ h

theorem returns_pure {a : α} {P : α → Prop} (h : P a) : Returns (pure a : Except ε α) P :=
  returns_ok h

theorem returns_error {e : ε} {P : α → Prop} : Returns (.error e : Except ε α) P :=
  fun _ hb => by cases hb

theorem returns_bind {x : Except ε α} {f : α → Except ε β} {P : β → Prop}
    (h : ∀ a, Returns (f a) P) : Returns (x >>= f) P := by
  intro b hb
  obtain ⟨a, -, hfa⟩ := bind_eq_ok.mp hb
  exact h a b hfa

/-- The rule of sequence: what holds of the first value is used for the second. -/
theorem returns_seq {x : Except ε α} {f : α → Except ε β} {P : α → Prop} {Q : β → Prop}
    (hx : Returns x P) (h : ∀ a, P a → Returns (f a) Q) : Returns (x >>= f) Q := by
  intro b hb
  obtain ⟨a, ha, hfa⟩ := bind_eq_ok.mp hb
  exact h a (hx a ha) b hfa

/-- The computation raises nothing. -/
def Succeeds {ε : Type*} {α : Type*} (x : Except ε α) : Prop := ∃ a, x = .ok a

section Succeeds

variable {x : Except ε α} {f : α → Except ε β}

@[simp] theorem succeeds_ok {a : α} : Succeeds (.ok a : Except ε α) := ⟨a, rfl⟩

@[simp] theorem succeeds_pure {a : α} : Succeeds (pure a : Except ε α) := ⟨a, rfl⟩

@[simp] theorem not_succeeds_error {e : ε} : ¬ Succeeds (.error e : Except ε α) := by
  rintro ⟨a, h⟩
  cases h

theorem succeeds_bind : Succeeds (x >>= f) ↔ ∃ a, x = .ok a ∧ Succeeds (f a) := by
  constructor
  · rintro ⟨b, hb⟩
    obtain ⟨a, ha, hf⟩ := bind_eq_ok.mp hb
    exact ⟨a, ha, b, hf⟩
  · rintro ⟨a, ha, b, hf⟩
    exact ⟨b, bind_eq_ok.mpr ⟨a, ha, hf⟩⟩

/-- Whether the second step succeeds does not depend on the value of the first. -/
theorem succeeds_bind_of {P : Prop} (h : ∀ a, x = .ok a → (Succeeds (f a) ↔ P)) :
    Succeeds (x >>= f) ↔ Succeeds x ∧ P := by
  rw [succeeds_bind]
  constructor
  · rintro ⟨a, ha, hf⟩
    exact ⟨⟨a, ha⟩, (h a ha).mp hf⟩
  · rintro ⟨⟨a, ha⟩, hp⟩
    exact ⟨a, ha, (h a ha).mpr hp⟩

theorem succeeds_bind_iff (h : ∀ a, Succeeds (f a)) : Succeeds (x >>= f) ↔ Succeeds x := by
  rw [succeeds_bind_of fun a _ => iff_true_intro (h a), and_true]

theorem succeeds_ite_error {p : Prop} [Decidable p] {e : ε} {y : Except ε α} :
    Succeeds (if p then .error e else y) ↔ ¬ p ∧ Succeeds y := by
  by_cases hp : p
  · simp [hp]
  · simp [hp]

end Succeeds

/-! ## The same computation on transformed data -/

/-- `y` is `x` with its value transformed by `c`; exceptions are the same. -/
def MapsTo (c : α → β) (x : Except ε α) (y : Except ε β) : Prop := y = x.map c

section MapsTo

variable {c : α → β} {x : Except ε α} {y : Except ε β}

theorem mapsTo_ok {a : α} {b : β} (h : b = c a) : MapsTo c (.ok a : Except ε α) (.ok b) := by
  rw [h]
  rfl

theorem mapsTo_pure {a : α} {b : β} (h : b = c a) :
    MapsTo c (pure a : Except ε α) (pure b) := mapsTo_ok h

theorem mapsTo_error {e : ε} : MapsTo c (.error e : Except ε α) (.error e) := rfl

theorem mapsTo_refl (x : Except ε α) : MapsTo id x x := by
  cases x <;> rfl

theorem mapsTo_of_ok {a : α} (h : MapsTo c x y) (hx : x = .ok a) : y = .ok (c a) := by
  rw [h, hx]
  rfl

theorem mapsTo_error_iff {e : ε} (h : MapsTo c x y) : y = .error e ↔ x = .error e := by
  rw [h]
  cases x <;> simp [Except.map]

theorem mapsTo_bind {γ δ : Type u} {d : γ → δ} {f : α → Except ε γ} {g : β → Except ε δ}
    (h : MapsTo c x y) (hf : ∀ a, MapsTo d (f a) (g (c a))) : MapsTo d (x >>= f) (y >>= g) := by
  cases x with
  | error e =>
    rw [h]
    rfl
  | ok a =>
    rw [h]
    exact hf a

/-- The same, for the value that the first step gives. -/
theorem mapsTo_bind_value {γ δ : Type u} {d : γ → δ} {f : α → Except ε γ} {g : β → Except ε δ}
    (h : MapsTo c x y) (hf : ∀ a, x = .ok a → MapsTo d (f a) (g (c a))) :
    MapsTo d (x >>= f) (y >>= g) := by
  cases x with
  | error e =>
    rw [h]
    rfl
  | ok a =>
    rw [h]
    exact hf a rfl

theorem mapsTo_bind_same {γ δ : Type u} {d : γ → δ} {f : α → Except ε γ} {g : α → Except ε δ}
    (hf : ∀ a, MapsTo d (f a) (g a)) : MapsTo d (x >>= f) (x >>= g) :=
  mapsTo_bind (mapsTo_refl x) hf

theorem mapsTo_bind_of_ok {γ δ : Type u} {d : γ → δ} {f : α → Except ε γ} {g : α → Except ε δ}
    (hf : ∀ a, x = .ok a → MapsTo d (f a) (g a)) : MapsTo d (x >>= f) (x >>= g) := by
  cases x with
  | error e => rfl
  | ok a => exact hf a rfl

theorem mapsTo_ite {p : Prop} [Decidable p] {x' : Except ε α} {y' : Except ε β}
    (h : MapsTo c x y) (h' : MapsTo c x' y') :
    MapsTo c (if p then x else x') (if p then y else y') := by
  by_cases hp : p
  · simpa [hp] using h
  · simpa [hp] using h'

theorem mapsTo_mapM {ι : Type*} {f : ι → Except ε α} {g : ι → Except ε β} (xs : List ι)
    (h : ∀ i ∈ xs, MapsTo c (f i) (g i)) : MapsTo (List.map c) (xs.mapM f) (xs.mapM g) := by
  induction xs with
  | nil => exact mapsTo_ok rfl
  | cons i xs ih =>
    rw [List.mapM_cons, List.mapM_cons]
    refine mapsTo_bind (h i (by simp)) fun a => ?_
    refine mapsTo_bind (ih fun j hj => h j (List.mem_cons_of_mem i hj)) fun as => ?_
    exact mapsTo_pure rfl

theorem mapsTo_foldlM {ι κ : Type*} {e : ι → κ} {f : α → ι → Except ε α} {g : β → κ → Except ε β}
    (h : ∀ a i, MapsTo c (f a i) (g (c a) (e i))) (xs : List ι) (a : α) :
    MapsTo c (xs.foldlM f a) ((xs.map e).foldlM g (c a)) := by
  induction xs generalizing a with
  | nil => exact mapsTo_ok rfl
  | cons i xs ih =>
    rw [List.map_cons, List.foldlM_cons, List.foldlM_cons]
    exact mapsTo_bind (h a i) ih

end MapsTo

theorem foldlM_invariant {ι : Type*} {f : β → ι → Except ε β} {xs : List ι} {b b' : β}
    (Inv : β → Prop) (hstep : ∀ b x b', x ∈ xs → Inv b → f b x = .ok b' → Inv b') (h0 : Inv b)
    (h : xs.foldlM f b = .ok b') : Inv b' := by
  induction xs generalizing b with
  | nil =>
    rw [List.foldlM_nil, pure_eq_ok] at h
    exact h ▸ h0
  | cons x xs ih =>
    rw [List.foldlM_cons, bind_eq_ok] at h
    obtain ⟨c, hc, h⟩ := h
    exact ih (fun b y b' hy => hstep b y b' (List.mem_cons_of_mem _ hy))
      (hstep b x c (by simp) h0 hc) h

end QBackend.FallibleSteps
